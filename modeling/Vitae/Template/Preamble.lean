/-
Module: Vitae.Template.Preamble
Layer: Template
Purpose: What stands before the body of a document: its class, packages, colours, typeface and the
  commands of its design. Source is written with angle brackets for braces, and doubled brackets make a
  placeholder.
Imports: Vitae.Template.Placeholder
Main exports: Preamble, Preamble.text, entryCommands, and the preamble of each design
-/
import Vitae.Template.Placeholder

namespace Vitae.Template

/-- A preamble: the size of its type, what it adds to the page layout, its packages besides those that
every design has, the colours it derives, and its own commands. -/
structure Preamble where
  fontSize : String
  geometry : String
  packages : List String
  colors : List String
  commands : List String
deriving Repr, DecidableEq

namespace Preamble

/-- The lines of a preamble. -/
def lines (p : Preamble) : List String :=
  [r"\documentclass[" ++ p.fontSize ++ ",⟨⟨paper⟩⟩]⟨article⟩",
   "",
   "% PACKAGES",
   r"\usepackage[⟨⟨paper⟩⟩,margin=⟨⟨margin⟩⟩" ++ p.geometry ++ "]⟨geometry⟩",
   r"\usepackage[T1]⟨fontenc⟩",
   r"\IfFileExists⟨lmodern.sty⟩⟨\usepackage⟨lmodern⟩⟩⟨⟩",
   r"\usepackage⟨microtype⟩",
   r"\usepackage⟨enumitem⟩",
   r"\usepackage⟨xcolor⟩",
   r"\usepackage⟨titlesec⟩"] ++
  p.packages.map (fun package => r"\usepackage⟨" ++ package ++ "⟩") ++
  [r"\usepackage[hidelinks]⟨hyperref⟩",
   "",
   "% COLORS",
   "⟨⟨colors⟩⟩"] ++
  p.colors ++
  ["",
   "% FONT",
   "⟨⟨font⟩⟩",
   ""] ++
  p.commands

/-- The text of a preamble, with its placeholders. -/
def text (p : Preamble) : List Char :=
  bracedLines p.lines

end Preamble

/-- The commands for jobs, courses of study and projects, with the space around an entry left open. -/
def entryCommandLines : List String :=
  ["% Experience entry: role, company, dates, bullets",
   r"\newcommand⟨\resumeEntry⟩[4]⟨%",
   r"  \vspace⟨⟨⟨before⟩⟩⟩",
   r"  \noindent⟨\textbf⟨#1⟩\ifx\relax#3\relax\else\hfill⟨\small\color⟨secondarycolor⟩#3⟩\fi⟩\\",
   r"  \ifx\relax#2\relax\else\noindent⟨\small\emph⟨#2⟩⟩\\\fi",
   "  #4",
   r"  \vspace⟨⟨⟨after⟩⟩⟩",
   "⟩",
   "",
   "% Education entry: school, degree, dates",
   r"\newcommand⟨\educationEntry⟩[3]⟨%",
   r"  \vspace⟨⟨⟨before⟩⟩⟩",
   r"  \noindent⟨\textbf⟨#1⟩\ifx\relax#3\relax\else\hfill⟨\small\color⟨secondarycolor⟩#3⟩\fi⟩\\",
   r"  \ifx\relax#2\relax\else\noindent⟨\small\emph⟨#2⟩⟩\\\fi",
   r"  \vspace⟨⟨⟨after⟩⟩⟩",
   "⟩",
   "",
   "% Project entry: name, technologies, description",
   r"\newcommand⟨\projectEntry⟩[3]⟨%",
   r"  \vspace⟨⟨⟨before⟩⟩⟩",
   r"  \noindent⟨\textbf⟨#1⟩\ifx\relax#2\relax\else\ ⟨\small\color⟨secondarycolor⟩| #2⟩\fi⟩\\",
   r"  \ifx\relax#3\relax\else⟨\small #3⟩\\\fi",
   r"  \vspace⟨⟨⟨after⟩⟩⟩",
   "⟩"]

/-- The commands for jobs, courses of study and projects. -/
def entryCommands (before after : List Char) : List Char :=
  fill (bracedLines entryCommandLines) [("before", before), ("after", after)]

namespace Preamble

/-- A centred header and ruled sections. -/
def classic : Preamble where
  fontSize := "11pt"
  geometry := ""
  packages := ["ragged2e", "array"]
  colors := []
  commands :=
    ["% SECTIONS",
     r"\titleformat⟨\section⟩⟨\large\bfseries\color⟨primarycolor⟩⟩⟨⟩⟨0em⟩⟨⟩",
     r"\titlespacing*⟨\section⟩⟨0pt⟩⟨4pt⟩⟨2pt⟩",
     r"\newcommand⟨\sectionrule⟩⟨\par\noindent⟨\color⟨secondarycolor⟩\rule⟨\textwidth⟩⟨0.4pt⟩⟩\par⟩",
     "",
     "% HEADER",
     r"\newcommand⟨\header⟩[2]⟨%",
     r"  \begin⟨center⟩",
     r"    ⟨\Huge\bfseries\color⟨primarycolor⟩#1⟩%",
     r"    \ifx\relax#2\relax\else\\[2pt]⟨\large\color⟨secondarycolor⟩#2⟩\fi",
     r"  \end⟨center⟩",
     "⟩",
     r"\newcommand⟨\contact⟩[1]⟨%",
     r"  \ifx\relax#1\relax\else\begin⟨center⟩\vspace⟨-8pt⟩\small #1\end⟨center⟩\fi",
     "⟩",
     "",
     "⟨⟨entries⟩⟩",
     "% GLOBAL",
     r"\setlength⟨\parindent⟩⟨0pt⟩",
     r"\setlength⟨\parskip⟩⟨0pt⟩",
     r"\pagestyle⟨empty⟩",
     r"\raggedbottom"]

/-- A sidebar with headings of its own. -/
def modern : Preamble where
  fontSize := "10pt"
  geometry := ""
  packages := []
  colors := []
  commands :=
    ["% SECTIONS",
     r"\titleformat⟨\section⟩⟨\large\bfseries\color⟨primarycolor⟩⟩⟨⟩⟨0em⟩⟨⟩[⟨\color⟨primarycolor⟩\titlerule⟩]",
     r"\titlespacing*⟨\section⟩⟨0pt⟩⟨4pt⟩⟨3pt⟩",
     r"\newcommand⟨\sidebarHeading⟩[1]⟨%",
     r"  \par\vspace⟨6pt⟩⟨\normalsize\bfseries\color⟨primarycolor⟩\MakeUppercase⟨#1⟩⟩\par\vspace⟨2pt⟩",
     "⟩",
     "",
     "% HEADER",
     r"\newcommand⟨\header⟩[2]⟨%",
     r"  ⟨\LARGE\bfseries\color⟨primarycolor⟩#1⟩\par",
     r"  \ifx\relax#2\relax\else\vspace⟨3pt⟩⟨\color⟨secondarycolor⟩#2⟩\par\fi",
     "⟩",
     "",
     "⟨⟨entries⟩⟩",
     "% GLOBAL",
     r"\setlength⟨\parindent⟩⟨0pt⟩",
     r"\setlength⟨\parskip⟩⟨0pt⟩",
     r"\pagestyle⟨empty⟩"]

/-- A coloured banner and a band along the edge of the page, with entries set in colour. -/
def creative : Preamble where
  fontSize := "11pt"
  geometry := ",left=⟨⟨left⟩⟩"
  packages := ["eso-pic", "array"]
  colors := [r"\colorlet⟨bannercolor⟩⟨primarycolor!12!white⟩"]
  commands :=
    ["% PAGE ACCENT",
     r"\AddToShipoutPictureBG⟨\AtPageLowerLeft⟨\color⟨primarycolor⟩\rule⟨7pt⟩⟨\paperheight⟩⟩⟩",
     "",
     "% SECTIONS",
     r"\titleformat⟨\section⟩⟨\Large\bfseries\color⟨primarycolor⟩⟩⟨⟩⟨0em⟩⟨⟩[⟨\color⟨secondarycolor⟩\titlerule[0.8pt]⟩]",
     r"\titlespacing*⟨\section⟩⟨0pt⟩⟨8pt⟩⟨4pt⟩",
     r"\setlist[itemize]⟨label=⟨\color⟨primarycolor⟩\textbullet⟩⟩",
     "",
     "% HEADER",
     r"\newcommand⟨\header⟩[3]⟨%",
     r"  \noindent\fcolorbox⟨primarycolor⟩⟨bannercolor⟩⟨\parbox⟨\dimexpr\textwidth-2\fboxsep-2\fboxrule\relax⟩⟨%",
     r"    \vspace⟨6pt⟩",
     r"    ⟨\Huge\bfseries\color⟨primarycolor⟩#1⟩\par",
     r"    \ifx\relax#2\relax\else\vspace⟨3pt⟩⟨\large\itshape\color⟨secondarycolor⟩#2⟩\par\fi",
     r"    \ifx\relax#3\relax\else\vspace⟨5pt⟩⟨\small #3⟩\par\fi",
     r"    \vspace⟨4pt⟩",
     "  ⟩⟩",
     "⟩",
     "",
     "% Experience entry: role, company, dates, bullets",
     r"\newcommand⟨\resumeEntry⟩[4]⟨%",
     r"  \vspace⟨2pt⟩",
     r"  \noindent⟨\large\bfseries\color⟨primarycolor⟩#1⟩\ifx\relax#3\relax\else\hfill⟨\small\itshape\color⟨secondarycolor⟩#3⟩\fi\\",
     r"  \ifx\relax#2\relax\else\noindent⟨\bfseries #2⟩\\\fi",
     "  #4",
     r"  \vspace⟨2pt⟩",
     "⟩",
     "",
     "% Education entry: school, degree, dates",
     r"\newcommand⟨\educationEntry⟩[3]⟨%",
     r"  \vspace⟨2pt⟩",
     r"  \noindent⟨\bfseries\color⟨primarycolor⟩#1⟩\ifx\relax#3\relax\else\hfill⟨\small\itshape\color⟨secondarycolor⟩#3⟩\fi\\",
     r"  \ifx\relax#2\relax\else\noindent⟨#2⟩\\\fi",
     r"  \vspace⟨2pt⟩",
     "⟩",
     "",
     "% Project entry: name, technologies, description",
     r"\newcommand⟨\projectEntry⟩[3]⟨%",
     r"  \vspace⟨2pt⟩",
     r"  \noindent⟨\bfseries\color⟨primarycolor⟩#1⟩\\",
     r"  \ifx\relax#2\relax\else⟨\small\itshape\color⟨secondarycolor⟩#2⟩\\\fi",
     r"  \ifx\relax#3\relax\else⟨#3⟩\\\fi",
     r"  \vspace⟨2pt⟩",
     "⟩",
     "",
     "% GLOBAL",
     r"\setlength⟨\parindent⟩⟨0pt⟩",
     r"\setlength⟨\parskip⟩⟨0pt⟩",
     r"\pagestyle⟨empty⟩",
     r"\raggedbottom"]

/-- Small capitals, ruled headings and page numbers. -/
def professional : Preamble where
  fontSize := "10pt"
  geometry := ",bottom=⟨⟨bottom⟩⟩"
  packages := ["fancyhdr", "lastpage"]
  colors := []
  commands :=
    ["% FOOTER",
     r"\pagestyle⟨fancy⟩",
     r"\fancyhf⟨⟩",
     r"\renewcommand⟨\headrulewidth⟩⟨0pt⟩",
     r"\fancyfoot[C]⟨\footnotesize\color⟨secondarycolor⟩Page \thepage\ of \pageref*⟨LastPage⟩⟩",
     "",
     "% SECTIONS",
     r"\titleformat⟨\section⟩⟨\large\scshape\bfseries\color⟨primarycolor⟩⟩⟨⟩⟨0em⟩⟨⟩[⟨\color⟨primarycolor⟩\titlerule⟩]",
     r"\titlespacing*⟨\section⟩⟨0pt⟩⟨6pt⟩⟨3pt⟩",
     "",
     "% HEADER",
     r"\newcommand⟨\header⟩[2]⟨%",
     r"  ⟨\centering⟨\LARGE\bfseries\scshape\color⟨primarycolor⟩#1⟩\par⟩%",
     r"  \ifx\relax#2\relax\else⟨\centering\vspace⟨2pt⟩⟨\color⟨secondarycolor⟩#2⟩\par⟩\fi",
     "⟩",
     r"\newcommand⟨\contact⟩[1]⟨%",
     r"  \ifx\relax#1\relax\else⟨\centering\vspace⟨3pt⟩\small #1\par⟩\fi",
     "⟩",
     "",
     "⟨⟨entries⟩⟩",
     "% GLOBAL",
     r"\setlength⟨\parindent⟩⟨0pt⟩",
     r"\setlength⟨\parskip⟩⟨0pt⟩",
     r"\raggedbottom"]

/-- A plain header beside the sections. -/
def minimalist : Preamble where
  fontSize := "10pt"
  geometry := ""
  packages := ["paracol"]
  colors := []
  commands :=
    ["% SECTIONS",
     r"\titleformat⟨\section⟩⟨\normalsize\bfseries\color⟨primarycolor⟩⟩⟨⟩⟨0em⟩⟨⟩",
     r"\titlespacing*⟨\section⟩⟨0pt⟩⟨4pt⟩⟨2pt⟩",
     "",
     "% HEADER",
     r"\newcommand⟨\header⟩[2]⟨%",
     r"  ⟨\Large\color⟨primarycolor⟩#1⟩\par",
     r"  \ifx\relax#2\relax\else\vspace⟨2pt⟩⟨\small\color⟨secondarycolor⟩#2⟩\par\fi",
     "⟩",
     "",
     "⟨⟨entries⟩⟩",
     "% GLOBAL",
     r"\setlength⟨\parindent⟩⟨0pt⟩",
     r"\setlength⟨\parskip⟩⟨0pt⟩",
     r"\setlength⟨\columnsep⟩⟨18pt⟩",
     r"\pagestyle⟨empty⟩",
     r"\columnratio⟨0.34⟩"]

/-- A centred header over two columns. -/
def twoColumn : Preamble where
  fontSize := "10pt"
  geometry := ""
  packages := ["paracol"]
  colors := []
  commands :=
    ["% SECTIONS",
     r"\titleformat⟨\section⟩⟨\large\bfseries\color⟨primarycolor⟩⟩⟨⟩⟨0em⟩⟨⟩[⟨\color⟨secondarycolor⟩\titlerule⟩]",
     r"\titlespacing*⟨\section⟩⟨0pt⟩⟨5pt⟩⟨3pt⟩",
     "",
     "% HEADER",
     r"\newcommand⟨\header⟩[3]⟨%",
     r"  \begin⟨center⟩",
     r"    ⟨\huge\bfseries\color⟨primarycolor⟩#1⟩%",
     r"    \ifx\relax#2\relax\else\\[3pt]⟨\large\color⟨secondarycolor⟩#2⟩\fi",
     r"    \ifx\relax#3\relax\else\\[4pt]⟨\small #3⟩\fi",
     r"  \end⟨center⟩",
     "⟩",
     "",
     "⟨⟨entries⟩⟩",
     "% GLOBAL",
     r"\setlength⟨\parindent⟩⟨0pt⟩",
     r"\setlength⟨\parskip⟩⟨0pt⟩",
     r"\setlength⟨\columnsep⟩⟨16pt⟩",
     r"\pagestyle⟨empty⟩",
     r"\columnratio⟨0.65⟩"]

end Preamble

end Vitae.Template
