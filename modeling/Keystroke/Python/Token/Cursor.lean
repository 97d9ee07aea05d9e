/-!
# Cursor

A place in a source text: the characters still to come and the byte offset of the first of them.
-/

namespace Keystroke.Python

/-- A place in a source text. -/
structure Cursor where
  rest : List Char
  offset : Nat

namespace Cursor

/-- The place after one character. -/
def next (cursor : Cursor) : Cursor :=
  match cursor.rest with
  | [] => cursor
  | c :: rest => ⟨rest, cursor.offset + c.utf8Size⟩

/-- The place after `count` characters. -/
def skip : Nat → Cursor → Cursor
  | 0, cursor => cursor
  | count + 1, cursor => skip count cursor.next

/-- Whether a text comes next. -/
def startsWith (cursor : Cursor) (text : List Char) : Bool :=
  text.isPrefixOf cursor.rest

/-- The next characters with a property, in reverse and before `taken`, and the place after
them. -/
def takeWhileFrom (p : Char → Bool) : List Char → Nat → List Char → List Char × Cursor
  | [], offset, taken => (taken, ⟨[], offset⟩)
  | c :: rest, offset, taken =>
    if p c then takeWhileFrom p rest (offset + c.utf8Size) (c :: taken)
    else (taken, ⟨c :: rest, offset⟩)

/-- The next characters with a property, and the place after them. -/
def takeWhile (cursor : Cursor) (p : Char → Bool) : List Char × Cursor :=
  let (taken, after) := takeWhileFrom p cursor.rest cursor.offset []
  (taken.reverse, after)

theorem forall_takeWhileFrom {p : Char → Bool} {cs taken : List Char} {offset : Nat}
    (htaken : ∀ c ∈ taken, p c = true) : ∀ c ∈ (takeWhileFrom p cs offset taken).1, p c = true := by
  induction cs generalizing offset taken with
  | nil => exact htaken
  | cons c rest ih =>
    rw [takeWhileFrom]
    split
    · rename_i hc
      exact ih (List.forall_mem_cons.mpr ⟨hc, htaken⟩)
    · exact htaken

theorem forall_takeWhile (cursor : Cursor) (p : Char → Bool) :
    ∀ c ∈ (cursor.takeWhile p).1, p c = true :=
  fun c hc => forall_takeWhileFrom (List.forall_mem_nil _) c (List.mem_reverse.mp hc)

end Cursor

end Keystroke.Python
