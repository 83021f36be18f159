import ConfigStore.Store.Action

/-!
# Revision counters

Every domain counts its revisions in a file of its own, as a decimal number.

* `Counter.current` reads a counter, `Counter.advance` moves it on.
-/

namespace ConfigStore.Counter

/-- The value of a counter from the content of its file. Blanks around the number do not count, and
a file without a number stands for zero. -/
def value? (content : Bytes) : Option Int64 := do
  let text := Numeral.trim (← Utf8.decode? content)
  if text = "" then return 0
  (Numeral.integer? text).toOption

/-- The value of the counter of a domain; zero if it was never moved on. -/
def current (root : Path) (domain : String) : DiskAction Int64 := do
  let path := Layout.counter root domain
  match ← Files.read? path with
  | none => return 0
  | some content =>
    match value? content with
    | some n => return n
    | none => throw (.malformedCounter path)

/-- Moves the counter of a domain on by one and gives the new value. -/
def advance (root : Path) (domain : String) : DiskAction Int64 := do
  let next := (← current root domain) + 1
  let content := Utf8.encode (toString next.toInt)
  (Files.write (Layout.counter root domain) content).forgetful
  return next

end ConfigStore.Counter
