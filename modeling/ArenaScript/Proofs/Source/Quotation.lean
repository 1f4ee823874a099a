import ArenaScript.Proofs.Source.Reading
import ArenaScript.Token.Scanner

/-!
# Written literals

A string can be written as a literal in many ways: each of its bytes as it is,
with a letter after a backslash, or by its code.  Whichever way is chosen for each
byte, the scanner finds the end of the literal, and decoding it gives the string
back.

Main definitions:

- `Source.Spelling`: a way to write a byte.
- `Source.Quotes`: a way to write a string between quotes.

Main results:

- `Source.scan_of_quotes`: the literal is one token.
- `Source.unescape_of_quotes`: decoding gives the string.
-/

namespace ArenaScript.Source

/-- A digit below sixteen, with a letter of either case. -/
def hexDigit (upper : Bool) (d : UInt8) : UInt8 :=
  if d < 10 then 0x30 + d else (if upper then 0x41 else 0x61) + (d - 10)

/-- The ways to write a byte in a literal with a quote. -/
inductive Spelling (quote : UInt8) : UInt8 → List UInt8 → Prop
  /-- The byte itself, unless it is the quote or a backslash. -/
  | plain {b : UInt8} (other : b ≠ quote) (proper : b ≠ 0x5c) : Spelling quote b [b]
  | newline : Spelling quote 0x0a [0x5c, 0x6e]
  | tab : Spelling quote 0x09 [0x5c, 0x74]
  | carriageReturn : Spelling quote 0x0d [0x5c, 0x72]
  | singleQuote : Spelling quote 0x27 [0x5c, 0x27]
  | doubleQuote : Spelling quote 0x22 [0x5c, 0x22]
  | backslash : Spelling quote 0x5c [0x5c, 0x5c]
  /-- The code of the byte, each digit with a letter of either case. -/
  | code (b : UInt8) (upper upper' : Bool) :
      Spelling quote b [0x5c, 0x78, hexDigit upper (b >>> 4), hexDigit upper' (b &&& 15)]

/-- The ways to write a string inside a literal. -/
inductive Spelled (quote : UInt8) : List UInt8 → List UInt8 → Prop
  | nil : Spelled quote [] []
  | cons {b : UInt8} {bs word words : List UInt8} (first : Spelling quote b word)
      (rest : Spelled quote bs words) : Spelled quote (b :: bs) (word ++ words)

/-- The ways to write a string as a literal. -/
inductive Quotes : List UInt8 → List UInt8 → Prop
  | intro {quote : UInt8} {bs words : List UInt8} (proper : quote = 0x22 ∨ quote = 0x27)
      (spelled : Spelled quote bs words) : Quotes bs (quote :: words ++ [quote])

/-! ## One byte -/

theorem hexDigit_spec (upper : Bool) (d : UInt8) (small : d < 16) :
    isHexDigit (hexDigit upper d) = true ∧ hexValue (hexDigit upper d) = d := by
  have all : ∀ (upper : Bool) (n : Fin 16),
      isHexDigit (hexDigit upper (.ofNat n)) = true ∧ hexValue (hexDigit upper (.ofNat n)) = .ofNat
        n := by
    decide
  have below : d.toNat < 16 := UInt8.lt_iff_toNat_lt.mp small
  have found := all upper ⟨d.toNat, below⟩
  rwa [show UInt8.ofNat (⟨d.toNat, below⟩ : Fin 16) = d from UInt8.ofNat_toNat] at found

/-- A byte is made of its two digits. -/
theorem digits_spec (b : UInt8) :
    b >>> 4 < 16 ∧ b &&& 15 < 16 ∧ ((b >>> 4) <<< 4) ||| (b &&& 15) = b := by
  have all : ∀ n : Fin 256, (UInt8.ofNat n) >>> 4 < 16 ∧ (UInt8.ofNat n) &&& 15 < 16
      ∧ (((UInt8.ofNat n) >>> 4) <<< 4) ||| ((UInt8.ofNat n) &&& 15) = .ofNat n := by
    decide +kernel
  have found := all ⟨b.toNat, b.toNat_lt⟩
  rwa [show UInt8.ofNat (⟨b.toNat, b.toNat_lt⟩ : Fin 256) = b from UInt8.ofNat_toNat] at found

/-- A spelled byte stands for itself, for a letter after a backslash, or for two
digits after one. -/
theorem Spelling.cases_on_length {quote b : UInt8} {word : List UInt8}
    (spelling : Spelling quote b word) :
    (b ≠ quote ∧ b ≠ 0x5c ∧ word = [b])
      ∨ (∃ c, simpleEscape? c = some b ∧ c ≠ 0x78 ∧ word = [0x5c, c])
      ∨ ∃ c d, isHexDigit c = true ∧ isHexDigit d = true ∧ (hexValue c <<< 4) ||| hexValue d = b
        ∧ word = [0x5c, 0x78, c, d] := by
  cases spelling with
  | plain other proper => exact .inl ⟨other, proper, rfl⟩
  | newline => exact .inr (.inl ⟨0x6e, rfl, by decide, rfl⟩)
  | tab => exact .inr (.inl ⟨0x74, rfl, by decide, rfl⟩)
  | carriageReturn => exact .inr (.inl ⟨0x72, rfl, by decide, rfl⟩)
  | singleQuote => exact .inr (.inl ⟨0x27, rfl, by decide, rfl⟩)
  | doubleQuote => exact .inr (.inl ⟨0x22, rfl, by decide, rfl⟩)
  | backslash => exact .inr (.inl ⟨0x5c, rfl, by decide, rfl⟩)
  | code b upper upper' =>
    obtain ⟨high, low, whole⟩ := digits_spec b
    obtain ⟨digit, value⟩ := hexDigit_spec upper _ high
    obtain ⟨digit', value'⟩ := hexDigit_spec upper' _ low
    exact .inr (.inr ⟨_, _, digit, digit', by rw [value, value', whole], rfl⟩)

variable {s : Source} {quote b : UInt8} {word rest : List UInt8} {i : Nat}

/-- The bytes at a position, one after the other. -/
theorem startsWith_cons {c : UInt8} : s.startsWith i (c :: rest) = true ↔
    i < s.length ∧ s.byte i = c ∧ s.startsWith (i + 1) rest = true := by
  simp only [startsWith, Bool.and_eq_true, decide_eq_true_eq, beq_iff_eq, and_assoc]

theorem startsWith_append {front : List UInt8} : s.startsWith i (front ++ rest) = true ↔
    s.startsWith i front = true ∧ s.startsWith (i + front.length) rest = true := by
  induction front generalizing i with
  | nil => simp [startsWith]
  | cons c front ih =>
    rw [List.cons_append, startsWith_cons, startsWith_cons, ih, List.length_cons, Nat.add_right_comm,
      Nat.add_assoc, and_assoc, and_assoc]

/-- The bytes in the middle of a text. -/
theorem startsWith_ofBytes (front word rest : List UInt8) :
    (ofBytes ⟨(front ++ (word ++ rest)).toArray⟩).startsWith front.length word = true := by
  induction word generalizing front with
  | nil => rfl
  | cons c word ih =>
    have inside : front.length < (ofBytes ⟨(front ++ (c :: word ++ rest)).toArray⟩).length := by
      simp [ofBytes, ByteArray.size]
    have next := ih (front ++ [c])
    rw [List.append_assoc, List.length_append] at next
    refine startsWith_cons.mpr ⟨inside, ?_, next⟩
    simp [byte, ofBytes, ByteArray.size, ByteArray.get!]

/-- The scanner passes over a spelled byte. -/
theorem Spelling.closingQuote? (spelling : Spelling quote b word) (proper : quote ≠ 0x5c)
    (here : s.startsWith i word = true) (bound : Nat) :
    s.closingQuote? quote (bound + 1) i = s.closingQuote? quote bound (i + word.length) := by
  rcases spelling.cases_on_length with ⟨other, plain, rfl⟩ | ⟨c, -, letter, rfl⟩
    | ⟨c, d, -, -, -, rfl⟩
  · obtain ⟨inside, byte, -⟩ := startsWith_cons.mp here
    rw [Source.closingQuote?, if_neg (by omega), byte, if_neg (by simpa using other),
      if_pos (by simpa using plain)]
    rfl
  · obtain ⟨-, byte, here⟩ := startsWith_cons.mp here
    obtain ⟨inside, byte', -⟩ := startsWith_cons.mp here
    rw [Source.closingQuote?, if_neg (by omega), byte, if_neg (by simpa using proper.symm),
      if_neg (by decide), if_neg (by omega), byte', if_pos (by simpa using letter)]
    rfl
  · obtain ⟨-, byte, here⟩ := startsWith_cons.mp here
    obtain ⟨-, byte', here⟩ := startsWith_cons.mp here
    obtain ⟨-, -, here⟩ := startsWith_cons.mp here
    obtain ⟨inside, -, -⟩ := startsWith_cons.mp here
    rw [Source.closingQuote?, if_neg (by omega), byte, if_neg (by simpa using proper.symm),
      if_neg (by decide), if_neg (by omega), byte', if_neg (by decide), if_neg (by omega)]
    rfl

/-- The byte that a spelling stands for. -/
theorem Spelling.unescapeOne? (spelling : Spelling quote b word) (here : s.startsWith i word = true)
    (inside : i + word.length < s.length) :
    s.unescapeOne? i = some (b, i + word.length) := by
  rcases spelling.cases_on_length with ⟨-, plain, rfl⟩ | ⟨c, escape, -, rfl⟩ |
    ⟨c, d, digit, digit', value, rfl⟩
  · obtain ⟨-, byte, -⟩ := startsWith_cons.mp here
    rw [Source.unescapeOne?, byte, if_pos (by simpa using plain)]
    rfl
  · obtain ⟨-, byte, here⟩ := startsWith_cons.mp here
    obtain ⟨-, byte', -⟩ := startsWith_cons.mp here
    rw [Source.unescapeOne?, byte, if_neg (by decide), byte', escape]
    rfl
  · obtain ⟨-, byte, here⟩ := startsWith_cons.mp here
    obtain ⟨-, byte', here⟩ := startsWith_cons.mp here
    obtain ⟨-, high, here⟩ := startsWith_cons.mp here
    obtain ⟨-, low, -⟩ := startsWith_cons.mp here
    have within : i + 4 < s.length := inside
    have code : simpleEscape? 0x78 = none := by decide
    rw [Source.unescapeOne?, byte, if_neg (by decide), byte', code]
    simp only [Nat.add_assoc, Nat.reduceAdd] at high low
    simp only [high, low, digit, digit', within, value, decide_true, beq_self_eq_true, Bool.and_self,
      if_true, List.length_cons, List.length_nil, Nat.zero_add, Nat.reduceAdd]

/-! ## A whole literal -/

/-- The scanner finds the closing quote after a spelled string. -/
theorem Spelled.closingQuote? {bs words : List UInt8} (spelled : Spelled quote bs words)
    (proper : quote ≠ 0x5c) (here : s.startsWith i (words ++ [quote]) = true) {bound : Nat}
    (enough : words.length < bound) :
    s.closingQuote? quote bound i = some (i + words.length) := by
  induction spelled generalizing i bound with
  | nil =>
    obtain ⟨bound, rfl⟩ : ∃ n, bound = n + 1 := ⟨bound - 1, by omega⟩
    obtain ⟨inside, byte, -⟩ := startsWith_cons.mp here
    rw [Source.closingQuote?, if_neg (by omega), byte, if_pos (by simp)]
    rfl
  | @cons b bs word words first rest ih =>
    obtain ⟨bound, rfl⟩ : ∃ n, bound = n + 1 := ⟨bound - 1, by omega⟩
    rw [List.append_assoc, startsWith_append] at here
    have longer : 0 < word.length := by cases first <;> simp
    rw [List.length_append] at enough
    rw [first.closingQuote? proper here.1, ih here.2 (by omega), List.length_append, Nat.add_assoc]

/-- Decoding a spelled string up to its closing quote. -/
theorem Spelled.unescapeFrom {bs words : List UInt8} (spelled : Spelled quote bs words)
    (here : s.startsWith i words = true) (ends : i + words.length + 1 = s.length) {bound : Nat}
    (enough : words.length ≤ bound) (out : ByteArray) :
    s.unescapeFrom bound i out = (⟨out.data ++ bs.toArray⟩, true) := by
  induction spelled generalizing i bound out with
  | nil =>
    cases bound with
    | zero => simp [Source.unescapeFrom]
    | succ bound => simp [Source.unescapeFrom, show ¬ i + 1 < s.length by simp at ends; omega]
  | @cons b bs word words first rest ih =>
    have longer : 0 < word.length := by cases first <;> simp
    rw [List.length_append] at enough ends
    obtain ⟨bound, rfl⟩ : ∃ n, bound = n + 1 := ⟨bound - 1, by omega⟩
    rw [startsWith_append] at here
    have step := first.unescapeOne? here.1 (by omega)
    rw [Source.unescapeFrom, if_pos (by omega), step]
    simp only
    rw [ih here.2 (by omega) (by omega)]
    simp

/-- A literal at a position is one token. -/
theorem scan_of_quotes {bs word : List UInt8} (quotes : Quotes bs word)
    (here : s.startsWith i word = true) :
    s.scan i = { token := .string, start := i, length := word.length } := by
  obtain @⟨quote, bs, words, proper, spelled⟩ := quotes
  obtain ⟨inside, byte, rest⟩ := startsWith_cons.mp here
  have first : isBlank quote = false ∧ (quote == '/'.toUInt8) = false
      ∧ (quote == 0x22 || quote == 0x27) = true ∧ quote ≠ 0x5c := by
    rcases proper with rfl | rfl <;> decide
  obtain ⟨visible, sign, quoting, backslash⟩ := first
  have start : s.skipBlanks i = i := by
    obtain ⟨bound, enough⟩ : ∃ n, s.length - i = n + 1 := ⟨s.length - i - 1, by omega⟩
    have none : s.skipOne? i = none := by simp [skipOne?, holds, byte, visible, sign]
    rw [skipBlanks, enough, skipBlanksBound, none]
  have last := (startsWith_cons.mp (startsWith_append.mp rest).2).1
  have closes : s.closingQuote? quote (s.length - i) (i + 1) = some (i + 1 + words.length) :=
    spelled.closingQuote? backslash rest (by omega)
  rw [scan, start, if_neg (by omega)]
  simp only [scanAt, byte, quoting, if_true, scanString?, closes, Option.map_some,
    List.length_append, List.length_cons, List.length_nil]
  congr 1
  omega

/-- Decoding a literal gives the string that was written. -/
theorem unescape_of_quotes {bs word : List UInt8} (quotes : Quotes bs word)
    (here : s.startsWith 0 word = true) (whole : s.length = word.length) :
    s.unescape = (⟨bs.toArray⟩, true) := by
  obtain @⟨quote, bs, words, -, spelled⟩ := quotes
  obtain ⟨-, -, rest⟩ := startsWith_cons.mp here
  simp only [List.length_append, List.length_cons, List.length_nil] at whole
  rw [unescape, spelled.unescapeFrom (startsWith_append.mp rest).1 (by omega) (by omega)]
  simp

end ArenaScript.Source
