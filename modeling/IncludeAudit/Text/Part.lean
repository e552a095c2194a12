/-! # Starts and ends of texts

Whether a text starts or ends with another one, and what is left of it without that.
-/
namespace IncludeAudit.Text

/-- What follows `start` in a text that starts with it. -/
def after? (start text : String) : Option String :=
  if start.toList.isPrefixOf text.toList then
    some (String.ofList (text.toList.drop start.toList.length))
  else none

/-- Whether a text ends with `ending`. -/
def endsWith (ending text : String) : Bool := ending.toList.isSuffixOf text.toList

/-- A text without `ending` at its end; unchanged when it ends otherwise. -/
def removeSuffix (text ending : String) : String :=
  if endsWith ending text then
    String.ofList (text.toList.take (text.toList.length - ending.toList.length))
  else text

/-- What stands before the last `c` of a text that contains it, else the whole text. -/
def beforeLast (c : Char) (text : String) : String :=
  if text.toList.contains c then
    String.ofList ((text.toList.reverse.dropWhile (· != c)).drop 1).reverse
  else text

end IncludeAudit.Text
