import Vitae.Service.Router
import Vitae.Proofs.Document.WellFormed
import Vitae.Proofs.Document.Noninterference
import Vitae.Proofs.Document.Entries
import Vitae.Proofs.Document.Capture
import Vitae.Proofs.Document.Tidy
import Vitae.Proofs.Document.Options
import Vitae.Proofs.Document.Placement
import Vitae.Proofs.Document.Basics
import Vitae.Proofs.Document.Calls
import Vitae.Proofs.Service.Decoding
import Vitae.Proofs.Service.Reply
import Vitae.Proofs.Calendar
import Vitae.Proofs.Tex.Escape
import Vitae.Proofs.Typeset.Hyperlink
import Vitae.Proofs.Tex.Input
import Vitae.Proofs.Tex.Target
import Vitae.Proofs.Calendar.Shown
import Vitae.Proofs.Tex.Separator
import Vitae.Proofs.Typeset.Skills
import Vitae.Proofs.Document.Sections
import Vitae.Proofs.Document.Ignored
import Vitae.Proofs.Style.Millimetres
import Vitae.Proofs.Style.Color
import Vitae.Proofs.Service.TemplateNames
import Vitae.Proofs.Document.Paragraphs
import Vitae.Proofs.Tex.PercentCode
import Vitae.Proofs.Service.Settings
import Vitae.Proofs.Document.SectionGap
import Vitae.Proofs.Template.Simultaneous
