import KanaScript.Inspector.Screen

/-! The colours of the inspector. -/

namespace KanaScript.Inspector.Theme

def plain : Color := .rgb 205 214 244

def primary : Color := .rgb 137 180 250

def secondary : Color := .rgb 250 179 135

def comment : Color := .rgb 108 112 134

def success : Color := .rgb 166 227 161

def error : Color := .rgb 243 139 168

def keyword : Color := .rgb 137 180 250

def literal : Color := .rgb 250 179 135

def operator : Color := .rgb 245 194 231

def focusedBorder : Color := .rgb 249 226 175

def border : Color := .rgb 108 112 134

def currentLine : Color := .rgb 50 50 70

def function : Color := .rgb 249 226 175

def typeName : Color := .rgb 148 226 213

/-- The border of a pane, which stands out if the pane has the focus. -/
def borderStyle (focused : Bool) : Style :=
  if focused then (Style.colored focusedBorder).strong else .colored border

end KanaScript.Inspector.Theme
