import ArenaScript.Proofs.Source.Windows

/-!
# Tokens inside a longer text

A part of a text that a blank or a closing brace follows is scanned as if it
stood alone: no token runs over such a byte, unless it is a string that the part
leaves open.

Main definitions:

- `Source.Part`: a part of a text up to a boundary.

Main results:

- `Source.Part.scanAt_eq`: a token of the part is a token of the text.
-/

namespace ArenaScript.Source

/-- A part of a text from a position on, up to the end of the text or to a
boundary. -/
structure Part (text part : ByteArray) (i : Nat) : Prop where
  inside : i + part.size ≤ text.size
  content : text.extract i (i + part.size) = part
  ends : i + part.size = text.size
    ∨ isBoundary ((ofBytes text).byte (i + part.size)) = true

namespace Part

variable {text part : ByteArray} {i k : Nat}

variable (p : Part text part i)
include p

/-- A part is a window of the text. -/
theorem window : Window (ofBytes text) (ofBytes part) i :=
  (shows_ofBytes text).window (shows_ofBytes part) p.inside p.content

theorem stops : (ofBytes text).Stops (i + part.size) :=
  p.ends.imp_left fun last => Nat.le_of_eq last.symm

theorem byte_eq (inside : k < part.size) : (ofBytes text).byte (i + k) = (ofBytes part).byte k :=
  p.window.byte k inside

/-- A character that is no boundary is seen alike. -/
theorem holds_eq {c : Char} (inner : isBoundary c.toUInt8 = false)
    (inside : k ≤ part.size) : (ofBytes text).holds (i + k) c = (ofBytes part).holds k c := by
  rcases Nat.lt_or_eq_of_le inside with inside | rfl
  · exact p.window.holds_eq c inside
  · have out : (ofBytes part).holds part.size c = false := by simp [holds, ofBytes]
    rw [out]
    exact p.stops.test_eq_false (proper_beq inner)

theorem scanString?_eq {stop : Nat} (inside : k < part.size)
    (found : (ofBytes part).scanString? k = some stop) :
    (ofBytes text).scanString? (i + k) = some (i + stop) := by
  have bound := p.inside
  rw [scanString?, Option.map_eq_some_iff] at found
  obtain ⟨j, found, rfl⟩ := found
  have size : (ofBytes part).length = part.size := rfl
  have size' : (ofBytes text).length = text.size := rfl
  have found' := p.window.closingQuote?_of_part
    (by omega : part.size - k ≤ (ofBytes text).length - (i + k)) found
  rw [scanString?, p.byte_eq inside, Nat.add_assoc i k 1, found']
  rfl

/-- A token of the part is a token of the text. -/
theorem scanAt_eq (inside : k < part.size) (closed : ((ofBytes part).scanAt k).token ≠ .bad) :
    (ofBytes text).scanAt (i + k) = ((ofBytes part).scanAt k).shift i := by
  have bound := p.inside
  have here : i + k < (ofBytes text).length := Nat.lt_of_lt_of_le (by omega) bound
  refine p.window.scanAt_eq inside (p.stops.scanAt_le here (by omega) fun j quote found => ?_)
  -- the part closes its string, so the text closes it there
  rw [p.byte_eq inside] at quote
  rw [scanAt, if_pos (by simpa using quote)] at closed
  cases found' : (ofBytes part).scanString? k with
  | none => simp [found'] at closed
  | some stop =>
    have top : stop ≤ part.size := scanString?_le found'
    rw [p.scanString?_eq inside found'] at found
    cases found
    omega

end Part

end ArenaScript.Source
