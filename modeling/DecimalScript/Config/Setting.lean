import DecimalScript.Config.Calendar
import DecimalScript.Config.Double
import DecimalScript.Text.Shown

/-!
# Settings

The values that a configuration can hold before anything is known about their meaning: nothing,
truth values, integers, fractions, texts, days, times, lists and mappings.
-/

namespace DecimalScript

/-- A value in a configuration. -/
inductive Setting where
  | null
  | boolean (value : Bool)
  | integer (value : Int)
  | fraction (value : Double)
  | text (value : String)
  | date (value : Date)
  | moment (value : Moment)
  | list (items : List Setting)
  | mapping (entries : List (Setting × Setting))
  deriving Inhabited

namespace Setting

mutual

/-- A setting as messages show it. -/
def shown : Setting → String
  | null => "None"
  | boolean value => if value then "True" else "False"
  | integer value => String.ofList (Numeral.signedNumeral value)
  | fraction value => value.text
  | text value => Text.shown value
  | date value => value.shown
  | moment value => value.shown
  | list items => "[" ++ ", ".intercalate (shownItems items) ++ "]"
  | mapping entries => "\x7b" ++ ", ".intercalate (shownEntries entries) ++ "\x7d"

/-- Items, one by one. -/
def shownItems : List Setting → List String
  | [] => []
  | item :: items => shown item :: shownItems items

/-- Entries, one by one. -/
def shownEntries : List (Setting × Setting) → List String
  | [] => []
  | (key, value) :: entries => (shown key ++ ": " ++ shown value) :: shownEntries entries

end

/-- The text of a setting: a text is its own, days and times are written with dashes and colons, and
any other is as messages show it. -/
def plainText : Setting → String
  | text value => value
  | date value => value.text
  | moment value => value.text
  | setting => setting.shown

mutual

/-- Whether every integer in a setting can be shown. -/
def isShowable : Setting → Bool
  | integer value => Numeral.isShowable value
  | list items => areShowable items
  | mapping entries => entriesAreShowable entries
  | _ => true

/-- Whether every integer in items can be shown. -/
def areShowable : List Setting → Bool
  | [] => true
  | item :: items => isShowable item && areShowable items

/-- Whether every integer in entries can be shown. -/
def entriesAreShowable : List (Setting × Setting) → Bool
  | [] => true
  | (key, value) :: entries => isShowable key && isShowable value && entriesAreShowable entries

end

/-- Whether a setting says nothing: null, false, zero, or an empty text, list or mapping. -/
def isVoid : Setting → Bool
  | null => true
  | boolean value => !value
  | integer value => value == 0
  | fraction value => value.isZero
  | text value => value.isEmpty
  | date _ | moment _ => false
  | list items => items.isEmpty
  | mapping entries => entries.isEmpty

/-- The name of a setting's class, as messages give it. -/
def className : Setting → String
  | null => "NoneType"
  | boolean _ => "bool"
  | integer _ => "int"
  | fraction _ => "float"
  | text _ => "str"
  | date _ => "datetime.date"
  | moment _ => "datetime.datetime"
  | list _ => "list"
  | mapping _ => "dict"

end Setting

end DecimalScript
