/-
Module: Vitae.Style.Codec
Layer: Style
Purpose: Style options and names of designs in JSON. Every option may be left out, and is then absent.
Imports: Vitae.Json.Codec, Vitae.Style.Options
Main exports: StyleOptions.codec, TemplateKey.codec
-/
import Vitae.Json.Codec
import Vitae.Style.Options

namespace Vitae

open Json (Codec Field Record)

/-- Page sizes in JSON. -/
def PageSize.codec : Codec PageSize :=
  .oneOf PageSize.name PageSize.all

/-- Kinds of typeface in JSON. -/
def FontFamily.codec : Codec FontFamily :=
  .oneOf FontFamily.name FontFamily.all

/-- Designs in JSON. Here a name is exact. -/
def TemplateKey.codec : Codec TemplateKey :=
  .oneOf TemplateKey.name TemplateKey.all

/-- The fields of style options. -/
def StyleOptions.record : Record StyleOptions where
  blank := {}
  fields :=
    [.of "pageSize" (.optional PageSize.codec) (·.pageSize) fun x o => { o with pageSize := x },
     .of "fontFamily" (.optional FontFamily.codec) (·.fontFamily)
       fun x o => { o with fontFamily := x },
     .of "primaryColor" (.optional .text) (·.primaryColor) fun x o => { o with primaryColor := x },
     .of "secondaryColor" (.optional .text) (·.secondaryColor)
       fun x o => { o with secondaryColor := x },
     .of "sectionSpacingMm" (.optional .number) (·.sectionSpacing)
       fun x o => { o with sectionSpacing := x },
     .of "sectionOrder" (.optional (.list .text)) (·.sectionOrder)
       fun x o => { o with sectionOrder := x }]

/-- Style options in JSON. -/
def StyleOptions.codec : Codec StyleOptions :=
  StyleOptions.record.codec

end Vitae
