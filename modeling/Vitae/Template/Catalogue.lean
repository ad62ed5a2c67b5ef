/-
Module: Vitae.Template.Catalogue
Layer: Template
Purpose: The six designs.
Imports: Vitae.Template.Design
Main exports: classic, modern, creative, professional, minimalist, twoColumn, Design.ofKey
-/
import Vitae.Template.Design

namespace Vitae.Template

/-- The styles of the regions. -/
def ruledGrid : SectionStyle :=
  ⟨.full, .grid 4, true⟩

/-- Full headings over a grid of three columns. -/
def openGrid : SectionStyle :=
  ⟨.full, .grid 3, false⟩

/-- Full headings, and skills in one line. -/
def inlineSkills : SectionStyle :=
  ⟨.full, .inline, false⟩

/-- Full headings, and skills one to an item. -/
def bulletedSkills : SectionStyle :=
  ⟨.full, .bulleted, false⟩

/-- Headings for a sidebar. -/
def sidebarStyle : SectionStyle :=
  ⟨.sidebar, .bulleted, false⟩

/-- Header, contact line, and all sections in one column with rules between them. -/
def classic : Design where
  key := .classic
  layout := .singleColumn
  preamble := .classic
  fillings := [("margin", .length ⟨"0.6in", "15mm"⟩), ("entries", .entryCommands "1pt" "1pt")]
  body :=
    [.call "header" [.name, .title],
     .code "\n",
     .call "contact" [.fullContactLine],
     .code "\n\\RaggedRight\n\n",
     .region ⟨ruledGrid,
       [.block (.summary "Summary"),
        .hosted [.education, .skills, .experience, .projects, .custom] .full]⟩]
  footer := []

/-- A sidebar for contact, skills and education, and a wide column for the rest. -/
def modern : Design where
  key := .modern
  layout := .sidebar
  preamble := .modern
  fillings := [("margin", .length ⟨"0.5in", "12mm"⟩), ("entries", .entryCommands "1pt" "1pt")]
  body :=
    [.code "\\noindent\n\\begin⟨minipage⟩[t]⟨0.32\\textwidth⟩\n\\raggedright\n",
     .call "header" [.name, .title],
     .code "\n",
     .region ⟨sidebarStyle,
       [.block .contact, .block .links, .hosted [.skills, .education] .short,
        .block .coursework]⟩,
     .code "\n\\end⟨minipage⟩%\n\\hfill\n\\begin⟨minipage⟩[t]⟨0.64\\textwidth⟩\n",
     .region ⟨inlineSkills,
       [.block (.summary "Profile"), .hosted [.experience, .projects, .custom] .full,
        .block .positions, .block .activities, .block .certifications]⟩,
     .code "\n\\end⟨minipage⟩\n"]
  footer := []

/-- A banner with everything about the owner, and all sections below. -/
def creative : Design where
  key := .creative
  layout := .singleColumn
  preamble := .creative
  fillings := [("margin", .length ⟨"0.6in", "15mm"⟩), ("left", .length ⟨"0.8in", "20mm"⟩)]
  body :=
    [.call "header" [.name, .title, .fullContactLine],
     .code "\n",
     .space .medium,
     .code "\n\n",
     .region ⟨openGrid,
       [.block (.summary "Profile"),
        .hosted [.experience, .projects, .skills, .education, .custom] .full]⟩]
  footer := []

/-- One column that begins with experience and ends with certifications. -/
def professional : Design where
  key := .professional
  layout := .singleColumn
  preamble := .professional
  fillings :=
    [("margin", .length ⟨"0.5in", "13mm"⟩), ("bottom", .length ⟨"0.7in", "18mm"⟩),
     ("entries", .entryCommands "2pt" "2pt")]
  body :=
    [.call "header" [.name, .title],
     .code "\n",
     .call "contact" [.fullContactLine],
     .code "\n",
     .space .small,
     .code "\n\n",
     .region ⟨inlineSkills,
       [.block (.summary "Professional Summary"),
        .hosted [.experience, .projects, .education, .skills, .custom] .full,
        .block .certifications]⟩]
  footer := []

/-- The owner, contact, skills and education on the left, the rest on the right, and a line below. -/
def minimalist : Design where
  key := .minimalist
  layout := .paracol
  preamble := .minimalist
  fillings := [("margin", .length ⟨"0.7in", "18mm"⟩), ("entries", .entryCommands "0pt" "2pt")]
  body :=
    [.code "\\begin⟨paracol⟩⟨2⟩\n\\begin⟨leftcolumn⟩\n\\raggedright\n",
     .call "header" [.name, .title],
     .code "\n",
     .region ⟨bulletedSkills,
       [.block .contact, .block .links, .hosted [.skills, .education] .short]⟩,
     .code "\n\\end⟨leftcolumn⟩\n\\begin⟨rightcolumn⟩\n",
     .region ⟨inlineSkills,
       [.block (.summary "Summary"), .hosted [.experience, .projects, .custom] .full]⟩,
     .code "\n\\end⟨rightcolumn⟩\n\\end⟨paracol⟩\n"]
  footer :=
    [.code "\\par",
     .space .medium,
     .code "\n\\noindent⟨\\color⟨secondarycolor⟩\\hrulefill⟩"]

/-- A header over the page, a wide column on the left, and skills, education and links on the right. -/
def twoColumn : Design where
  key := .twoColumn
  layout := .paracol
  preamble := .twoColumn
  fillings := [("margin", .length ⟨"0.55in", "14mm"⟩), ("entries", .entryCommands "1pt" "1pt")]
  body :=
    [.call "header" [.name, .title, .contactLine],
     .code "\n",
     .space .small,
     .code "\n\\begin⟨paracol⟩⟨2⟩\n\\begin⟨leftcolumn⟩\n",
     .region ⟨inlineSkills,
       [.block (.summary "Profile"), .hosted [.experience, .projects, .custom] .full]⟩,
     .code "\n\\end⟨leftcolumn⟩\n\\begin⟨rightcolumn⟩\n\\raggedright\n",
     .region ⟨bulletedSkills, [.hosted [.skills, .education] .short, .block .links]⟩,
     .code "\n\\end⟨rightcolumn⟩\n\\end⟨paracol⟩\n"]
  footer :=
    [.code "\\par",
     .space .small,
     .code "\n\\noindent⟨\\color⟨primarycolor⟩\\hrulefill⟩"]

/-- The design with the given key. -/
def Design.ofKey : TemplateKey → Design
  | .classic => classic
  | .modern => modern
  | .creative => creative
  | .professional => professional
  | .minimalist => minimalist
  | .twoColumn => twoColumn

end Vitae.Template
