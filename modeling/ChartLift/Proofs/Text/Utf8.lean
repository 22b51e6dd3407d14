import ChartLift.Text.Utf8
import Mathlib.Tactic.Lemma

/-!
# UTF-8 read and written

Bytes that read as a text are the bytes that the text is written with (`encode_of_decode`), so that
offsets into one are offsets into the other. These bytes are those that the library writes it with
(`toByteArray_encode`), and the offsets between characters are the library's positions
(`between_iff_isValid`). Before and behind a byte below 128 a character ends (`between_of_lt`,
`between_succ`), and what stands between the ends of characters is a text again
(`Between.exists_slice`).
-/

namespace ChartLift.Text.Utf8

/-! ## Bytes of a sequence -/

/-- A byte continues a sequence if it lies in a certain range. -/
lemma isTrail_iff {b : UInt8} : isTrail b = true ↔ 128 ≤ b.toNat ∧ b.toNat ≤ 191 := by
  simp [isTrail, UInt8.le_iff_toNat_le]

/-- The first bytes of the sequences of each width. -/
lemma bounds_of_width (a : UInt8) :
    (width a = 1 → a.toNat < 128) ∧
      (width a = 2 → 194 ≤ a.toNat ∧ a.toNat < 224) ∧
      (width a = 3 → 224 ≤ a.toNat ∧ a.toNat < 240) ∧
      (width a = 4 → 240 ≤ a.toNat ∧ a.toNat < 245) := by
  simp only [width, UInt8.lt_iff_toNat_lt]
  grind

/-- Second bytes continue a sequence, and neither overlong forms nor surrogates nor code points
beyond the last plane begin with them. -/
lemma bounds_of_isSecond {a b : UInt8} (h : isSecond a b = true) :
    (128 ≤ b.toNat ∧ b.toNat ≤ 191) ∧ (a.toNat = 224 → 160 ≤ b.toNat) ∧
      (a.toNat = 237 → b.toNat ≤ 159) ∧ (a.toNat = 240 → 144 ≤ b.toNat) ∧
      (a.toNat = 244 → b.toNat ≤ 143) := by
  simp only [isSecond, isTrail, ← UInt8.toNat_inj, UInt8.le_iff_toNat_le] at h
  grind

/-! ## Characters -/

/-- A code point that is no surrogate is that of its character. -/
lemma toNat_ofNat_of_valid {n : Nat} (h : n < 55296 ∨ 57343 < n ∧ n < 1114112) :
    (Char.ofNat n).toNat = n := by
  rw [Char.ofNat, dif_pos h]
  rfl

/-- A byte that is told from its number. -/
lemma ofNat_eq {n : Nat} {b : UInt8} (h : n = b.toNat) : UInt8.ofNat n = b := by
  rw [h, UInt8.ofNat_toNat]

lemma encodeChar_of_width_one {a : UInt8} (first : width a = 1) :
    encodeChar (Char.ofNat a.toNat) = [a] := by
  have := (bounds_of_width a).1 first
  rw [encodeChar, toNat_ofNat_of_valid (by omega), if_pos this, UInt8.ofNat_toNat]

lemma encodeChar_char2 {a b : UInt8} (first : width a = 2) (second : isSecond a b = true) :
    encodeChar (char2 a b) = [a, b] := by
  have := (bounds_of_width a).2.1 first
  have := bounds_of_isSecond second
  rw [encodeChar, char2, low, toNat_ofNat_of_valid (by omega), if_neg (by omega), if_pos (by omega),
    ofNat_eq (b := a) (by omega), ofNat_eq (b := b) (by omega)]

lemma encodeChar_char3 {a b c : UInt8} (first : width a = 3) (second : isSecond a b = true)
    (third : isTrail c = true) : encodeChar (char3 a b c) = [a, b, c] := by
  have := (bounds_of_width a).2.2.1 first
  have := bounds_of_isSecond second
  have := isTrail_iff.mp third
  rw [encodeChar, char3, low, low, toNat_ofNat_of_valid (by omega), if_neg (by omega),
    if_neg (by omega), if_pos (by omega), ofNat_eq (b := a) (by omega),
    ofNat_eq (b := b) (by omega), ofNat_eq (b := c) (by omega)]

lemma encodeChar_char4 {a b c d : UInt8} (first : width a = 4) (second : isSecond a b = true)
    (third : isTrail c = true) (fourth : isTrail d = true) :
    encodeChar (char4 a b c d) = [a, b, c, d] := by
  have := (bounds_of_width a).2.2.2 first
  have := bounds_of_isSecond second
  have := isTrail_iff.mp third
  have := isTrail_iff.mp fourth
  rw [encodeChar, char4, low, low, low, toNat_ofNat_of_valid (by omega), if_neg (by omega),
    if_neg (by omega), if_neg (by omega), ofNat_eq (b := a) (by omega),
    ofNat_eq (b := b) (by omega), ofNat_eq (b := c) (by omega), ofNat_eq (b := d) (by omega)]

/-! ## Texts -/

/-- A character that is read in front of a text is written in front of it. -/
lemma encode_of_map {c : Char} {sequence rest : Bytes} {read : Except Utf8Fault (List Char)}
    {text : List Char} (char : encodeChar c = sequence)
    (behind : ∀ {text}, read = .ok text → encode text = rest)
    (h : read.map (c :: ·) = .ok text) : encode text = sequence ++ rest := by
  cases read with
  | error => cases h
  | ok tail =>
    cases h
    rw [← behind rfl, ← char]
    rfl

/-- Bytes that read as a text from any index are the bytes it is written with. -/
lemma encode_of_decodeFrom {index : Nat} {bytes : Bytes} {text : List Char}
    (h : decodeFrom index bytes = .ok text) : encode text = bytes := by
  fun_induction decodeFrom index bytes generalizing text with
  | case1 => cases h; rfl
  | case2 index a rest first ih => exact encode_of_map (encodeChar_of_width_one first) ih h
  | case5 index a first b rest second ih =>
    exact encode_of_map (encodeChar_char2 first (by simpa using second)) ih h
  | case10 index a first b c rest second third ih =>
    exact encode_of_map (encodeChar_char3 first (by simpa using second) (by simpa using third)) ih h
  | case17 index a first b c d rest second third fourth ih =>
    exact encode_of_map (encodeChar_char4 first (by simpa using second) (by simpa using third)
      (by simpa using fourth)) ih h
  -- everything else is a fault
  | _ => cases h

/-- Bytes that read as a text are the bytes it is written with. -/
lemma encode_of_decode {bytes : Bytes} {text : List Char} (h : decode bytes = .ok text) :
    encode text = bytes :=
  encode_of_decodeFrom h

/-! ## Bytes of texts -/

/-- The width of a sequence by its first byte. -/
lemma width_of_toNat (a : UInt8) :
    (a.toNat < 128 → width a = 1) ∧
      (194 ≤ a.toNat ∧ a.toNat < 224 → width a = 2) ∧
      (224 ≤ a.toNat ∧ a.toNat < 240 → width a = 3) ∧
      (240 ≤ a.toNat ∧ a.toNat < 245 → width a = 4) := by
  simp only [width, UInt8.lt_iff_toNat_lt]
  grind

lemma isSecond_of_bounds {a b : UInt8} (range : 128 ≤ b.toNat ∧ b.toNat ≤ 191)
    (overlong3 : a.toNat = 224 → 160 ≤ b.toNat) (surrogate : a.toNat = 237 → b.toNat ≤ 159)
    (overlong4 : a.toNat = 240 → 144 ≤ b.toNat) (beyond : a.toNat = 244 → b.toNat ≤ 143) :
    isSecond a b = true := by
  simp only [isSecond, isTrail, ← UInt8.toNat_inj, UInt8.le_iff_toNat_le]
  grind

lemma toNat_ofNat_of_lt {n : Nat} (h : n < 256) : (UInt8.ofNat n).toNat = n := by
  rw [UInt8.toNat_ofNat', Nat.mod_eq_of_lt h]

/-- A character from its code point, in whatever way it is computed. -/
lemma ofNat_eq_char {n : Nat} {c : Char} (h : n = c.toNat) : Char.ofNat n = c := by
  rw [h, Char.ofNat_toNat]

section Sequences

variable {index : Nat} {a b c d : UInt8} {rest : Bytes}

lemma decodeFrom_one (first : width a = 1) :
    decodeFrom index (a :: rest) = (decodeFrom (index + 1) rest).map (Char.ofNat a.toNat :: ·) := by
  rw [decodeFrom.eq_def]
  simp only [first]

lemma decodeFrom_two (first : width a = 2) (second : isSecond a b = true) :
    decodeFrom index (a :: b :: rest) = (decodeFrom (index + 2) rest).map (char2 a b :: ·) := by
  simp [decodeFrom, first, second]

lemma decodeFrom_three (first : width a = 3) (second : isSecond a b = true) (third : isTrail c = true) :
    decodeFrom index (a :: b :: c :: rest) = (decodeFrom (index + 3) rest).map (char3 a b c :: ·) := by
  simp [decodeFrom, first, second, third]

lemma decodeFrom_four (first : width a = 4) (second : isSecond a b = true) (third : isTrail c = true)
    (fourth : isTrail d = true) :
    decodeFrom index (a :: b :: c :: d :: rest) =
      (decodeFrom (index + 4) rest).map (char4 a b c d :: ·) := by
  simp [decodeFrom, first, second, third, fourth]

end Sequences

/-- What a character is written with is read as this character. -/
lemma decodeFrom_encodeChar (index : Nat) (c : Char) (rest : Bytes) :
    ∃ next, decodeFrom index (encodeChar c ++ rest) = (decodeFrom next rest).map (c :: ·) := by
  have valid : c.toNat < 55296 ∨ 57343 < c.toNat ∧ c.toNat < 1114112 := c.valid
  simp only [encodeChar]
  generalize code : c.toNat = n at valid
  have low_eq : ∀ m : Nat, low (UInt8.ofNat (0x80 + m % 64)) = m % 64 := fun m => by
    rw [low, toNat_ofNat_of_lt (by omega)]
    omega
  have trail : ∀ m : Nat, isTrail (UInt8.ofNat (0x80 + m % 64)) = true := fun m => by
    rw [isTrail_iff, toNat_ofNat_of_lt (by omega)]
    omega
  split
  · next one =>
    have first := toNat_ofNat_of_lt (show n < 256 by omega)
    exact ⟨index + 1, by rw [List.singleton_append, decodeFrom_one ((width_of_toNat _).1 (by omega)),
      ofNat_eq_char (first.trans code.symm)]⟩
  split
  · next two =>
    have first := toNat_ofNat_of_lt (show 0xC0 + n / 64 < 256 by omega)
    have second := toNat_ofNat_of_lt (show 0x80 + n % 64 < 256 by omega)
    have wide := (width_of_toNat (UInt8.ofNat (0xC0 + n / 64))).2.1 (by omega)
    have fits : isSecond (UInt8.ofNat (0xC0 + n / 64)) (UInt8.ofNat (0x80 + n % 64)) = true :=
      isSecond_of_bounds (by omega) (by omega) (by omega) (by omega) (by omega)
    have char : char2 (UInt8.ofNat (0xC0 + n / 64)) (UInt8.ofNat (0x80 + n % 64)) = c :=
      ofNat_eq_char (by rw [low_eq, first]; omega)
    exact ⟨index + 2, (decodeFrom_two wide fits).trans (by rw [char]; rfl)⟩
  split
  · next three =>
    have first := toNat_ofNat_of_lt (show 0xE0 + n / 4096 < 256 by omega)
    have second := toNat_ofNat_of_lt (show 0x80 + n / 64 % 64 < 256 by omega)
    have wide := (width_of_toNat (UInt8.ofNat (0xE0 + n / 4096))).2.2.1 (by omega)
    have fits : isSecond (UInt8.ofNat (0xE0 + n / 4096)) (UInt8.ofNat (0x80 + n / 64 % 64)) = true :=
      isSecond_of_bounds (by omega) (by omega) (by omega) (by omega) (by omega)
    have char : char3 (UInt8.ofNat (0xE0 + n / 4096)) (UInt8.ofNat (0x80 + n / 64 % 64))
        (UInt8.ofNat (0x80 + n % 64)) = c :=
      ofNat_eq_char (by rw [low_eq, low_eq, first]; omega)
    exact ⟨index + 3, (decodeFrom_three wide fits (trail n)).trans (by rw [char]; rfl)⟩
  · have first := toNat_ofNat_of_lt (show 0xF0 + n / 262144 < 256 by omega)
    have second := toNat_ofNat_of_lt (show 0x80 + n / 4096 % 64 < 256 by omega)
    have wide := (width_of_toNat (UInt8.ofNat (0xF0 + n / 262144))).2.2.2 (by omega)
    have fits :
        isSecond (UInt8.ofNat (0xF0 + n / 262144)) (UInt8.ofNat (0x80 + n / 4096 % 64)) = true :=
      isSecond_of_bounds (by omega) (by omega) (by omega) (by omega) (by omega)
    have char : char4 (UInt8.ofNat (0xF0 + n / 262144)) (UInt8.ofNat (0x80 + n / 4096 % 64))
        (UInt8.ofNat (0x80 + n / 64 % 64)) (UInt8.ofNat (0x80 + n % 64)) = c :=
      ofNat_eq_char (by rw [low_eq, low_eq, low_eq, first]; omega)
    exact ⟨index + 4,
      (decodeFrom_four wide fits (trail (n / 64)) (trail n)).trans (by rw [char]; rfl)⟩

/-- The bytes that a text is written with read as this text. -/
lemma decode_encode (text : List Char) : decode (encode text) = .ok text := by
  suffices ∀ index, decodeFrom index (encode text) = .ok text from this 0
  induction text with
  | nil => intro index; rfl
  | cons c text ih =>
    intro index
    obtain ⟨next, eq⟩ := decodeFrom_encodeChar index c (encode text)
    show decodeFrom index (encodeChar c ++ encode text) = _
    rw [eq, ih]
    rfl

/-! ## Bytes of the library -/

/-- A character is written as the library writes it. -/
lemma encodeChar_eq (c : Char) : encodeChar c = String.utf8EncodeChar c := by
  have valid : c.val.toNat < 55296 ∨ 57343 < c.val.toNat ∧ c.val.toNat < 1114112 := c.valid
  simp only [encodeChar, String.utf8EncodeChar, Char.toNat]
  generalize c.val.toNat = n at valid
  -- the library cuts the first byte to the bits that are left in it, and there are no others
  have two : n < 0x800 → n / 64 % 32 = n / 64 := fun _ => Nat.mod_eq_of_lt (by omega)
  have three : n < 0x10000 → n / 4096 % 16 = n / 4096 := fun _ => Nat.mod_eq_of_lt (by omega)
  have four : n / 262144 % 8 = n / 262144 := Nat.mod_eq_of_lt (by omega)
  grind

/-- A text is written as the library writes it. -/
lemma toByteArray_encode (text : List Char) :
    (encode text).toByteArray = (String.ofList text).toByteArray := by
  rw [String.toByteArray_ofList, List.utf8Encode, encode, funext encodeChar_eq]

/-- A text takes as many bytes as the library counts. -/
lemma length_encode (text : List Char) :
    (encode text).length = (String.ofList text).utf8ByteSize := by
  rw [← List.size_toByteArray, toByteArray_encode, String.size_toByteArray]

/-! ## Characters of bytes -/

lemma encode_cons (c : Char) (text : List Char) : encode (c :: text) = encodeChar c ++ encode text :=
  rfl

lemma encodeChar_ne_nil (c : Char) : encodeChar c ≠ [] := by
  rw [encodeChar_eq]
  exact String.utf8EncodeChar_ne_nil

/-- Characters are told from their bytes. -/
lemma encodeChar_injective : Function.Injective encodeChar := by
  intro c d same
  have bytes : encode [c] = encode [d] := by rw [encode_cons, encode_cons, same]
  have read := (decode_encode [c]).symm.trans ((congrArg decode bytes).trans (decode_encode [d]))
  exact (List.cons.inj (Except.ok.inj read)).1

/-! ## Widths -/

/-- The width of a text is the number of the bytes that it is written with. -/
lemma textWidth_eq (text : List Char) : textWidth text = (encode text).length := by
  induction text with
  | nil => rfl
  | cons c rest ih => rw [textWidth, ih, encode_cons, List.length_append, charWidth]

/-- One byte is enough for the characters below 128 only. -/
lemma length_encodeChar_eq_one_iff (c : Char) : (encodeChar c).length = 1 ↔ c.toNat < 128 := by
  rw [encodeChar_eq, String.length_utf8EncodeChar, Char.utf8Size_eq_one_iff, UInt32.le_iff_toNat_le]
  exact Nat.lt_succ_iff.symm

/-- A text takes no fewer bytes than it has characters. -/
lemma length_le_encode (text : List Char) : text.length ≤ (encode text).length := by
  induction text with
  | nil => exact Nat.le_refl _
  | cons c rest ih =>
    have pos := List.length_pos_iff.mpr (encodeChar_ne_nil c)
    rw [encode_cons, List.length_append, List.length_cons]
    omega

/-- A text takes as many bytes as it has characters if all of them are below 128. -/
lemma length_encode_eq_iff (text : List Char) :
    (encode text).length = text.length ↔ text.all (·.toNat < 128) = true := by
  induction text with
  | nil => exact iff_of_true rfl rfl
  | cons c rest ih =>
    have pos := List.length_pos_iff.mpr (encodeChar_ne_nil c)
    have least := length_le_encode rest
    rw [List.all_cons, Bool.and_eq_true_iff, ← ih, decide_eq_true_iff,
      ← length_encodeChar_eq_one_iff, encode_cons, List.length_append, List.length_cons]
    omega

/-! ## Offsets between characters -/

/-- That an offset stands between two characters of a text, or at one of its ends. -/
def Between (text : List Char) (n : Nat) : Prop :=
  ∃ front rest, text = front ++ rest ∧ (encode front).length = n

lemma encode_append (front rest : List Char) :
    encode (front ++ rest) = encode front ++ encode rest :=
  List.flatMap_append

lemma between_length (text : List Char) : Between text (encode text).length :=
  ⟨text, [], (List.append_nil text).symm, rfl⟩

lemma Between.le_length {text : List Char} {n : Nat} (between : Between text n) :
    n ≤ (encode text).length := by
  obtain ⟨front, rest, rfl, rfl⟩ := between
  rw [encode_append, List.length_append]
  exact Nat.le_add_right ..

/-- An offset stands between characters if the library takes it for a position in the text. -/
lemma between_iff_isValid {text : List Char} {n : Nat} :
    Between text n ↔ (String.Pos.Raw.mk n).IsValid (String.ofList text) := by
  rw [String.Pos.Raw.isValid_iff_exists_append]
  constructor
  · rintro ⟨front, rest, rfl, rfl⟩
    exact ⟨String.ofList front, String.ofList rest, String.ofList_append,
      congrArg String.Pos.Raw.mk (length_encode front)⟩
  · rintro ⟨front, rest, split, size⟩
    refine ⟨front.toList, rest.toList, ?_, ?_⟩
    · rw [← String.toList_append, ← split, String.toList_ofList]
    · rw [length_encode, String.ofList_toList]
      exact (congrArg String.Pos.Raw.byteIdx size).symm

/-- A byte below 128 is a character of its own. -/
lemma encodeChar_of_lt {c : Char} {b : UInt8} (mem : b ∈ encodeChar c) (ascii : b.toNat < 128) :
    encodeChar c = [b] := by
  have valid : c.toNat < 55296 ∨ 57343 < c.toNat ∧ c.toNat < 1114112 := c.valid
  have tail (m : Nat) (is : b = UInt8.ofNat (0x80 + m % 64)) : False := by
    rw [is, toNat_ofNat_of_lt (by omega)] at ascii
    omega
  have head (m : Nat) (large : 128 ≤ m) (small : m < 256) (is : b = UInt8.ofNat m) : False := by
    rw [is, toNat_ofNat_of_lt small] at ascii
    omega
  simp only [encodeChar] at mem ⊢
  split at mem
  next one =>
    rw [if_pos one, List.mem_singleton.mp mem]
  next many =>
    exfalso
    split at mem
    next two =>
      rcases List.mem_cons.mp mem with is | mem
      · exact head _ (by omega) (by omega) is
      · exact tail _ (List.mem_singleton.mp mem)
    next =>
      split at mem
      next three =>
        simp only [List.mem_cons, List.not_mem_nil, or_false] at mem
        rcases mem with is | is | is
        · exact head _ (by omega) (by omega) is
        · exact tail _ is
        · exact tail _ is
      next =>
        simp only [List.mem_cons, List.not_mem_nil, or_false] at mem
        rcases mem with is | is | is | is
        · exact head _ (by omega) (by omega) is
        · exact tail _ is
        · exact tail _ is
        · exact tail _ is

/-- A byte of an ASCII character stands for no other one. -/
lemma eq_of_mem_encodeChar {c d : Char} {b : UInt8} (mem : b ∈ encodeChar c) (ascii : b.toNat < 128)
    (is : encodeChar d = [b]) : c = d :=
  encodeChar_injective ((encodeChar_of_lt mem ascii).trans is.symm)

/-- Where a byte below 128 stands, there is a character that is written with this byte alone. -/
lemma exists_split_of_lt {text : List Char} {n : Nat} {b : UInt8}
    (there : (encode text)[n]? = some b) (ascii : b.toNat < 128) :
    ∃ front c rest, text = front ++ c :: rest ∧ (encode front).length = n ∧ encodeChar c = [b] := by
  induction text generalizing n with
  | nil => cases there
  | cons c rest ih =>
    rw [encode_cons, List.getElem?_append] at there
    split at there
    next within =>
      have alone := encodeChar_of_lt (List.mem_of_getElem? there) ascii
      rw [alone, List.length_singleton] at within
      exact ⟨[], c, rest, rfl, (Nat.lt_one_iff.mp within).symm, alone⟩
    next beyond =>
      obtain ⟨front, d, behind, rfl, length, alone⟩ := ih there
      refine ⟨c :: front, d, behind, rfl, ?_, alone⟩
      rw [encode_cons, List.length_append, length]
      omega

/-- Before a byte below 128 a character ends, or the text begins. -/
lemma between_of_lt {text : List Char} {n : Nat} {b : UInt8} (there : (encode text)[n]? = some b)
    (ascii : b.toNat < 128) : Between text n := by
  obtain ⟨front, c, rest, split, length, _⟩ := exists_split_of_lt there ascii
  exact ⟨front, c :: rest, split, length⟩

/-- Behind a byte below 128 a character ends. -/
lemma between_succ {text : List Char} {n : Nat} {b : UInt8} (there : (encode text)[n]? = some b)
    (ascii : b.toNat < 128) : Between text (n + 1) := by
  obtain ⟨front, c, rest, rfl, rfl, alone⟩ := exists_split_of_lt there ascii
  refine ⟨front ++ [c], rest, List.append_cons .., ?_⟩
  have one : encode [c] = [b] := (List.flatMap_singleton ..).trans alone
  rw [encode_append, List.length_append, one, List.length_singleton]

/-- What stands between two offsets between characters is a text. -/
lemma Between.exists_slice {text : List Char} {start stop : Nat} (first : Between text start)
    (last : Between text stop) (ordered : start ≤ stop) :
    ∃ inner, ((encode text).take stop).drop start = encode inner := by
  obtain ⟨front, rest, rfl, rfl⟩ := first
  obtain ⟨front', rest', same, rfl⟩ := last
  rcases List.append_eq_append_iff.mp same with ⟨inner, rfl, rfl⟩ | ⟨inner, rfl, rfl⟩
  · refine ⟨inner, ?_⟩
    rw [same, encode_append (front ++ inner), List.take_left, encode_append, List.drop_left]
  · refine ⟨[], ?_⟩
    have none : encode inner = [] := by
      rw [encode_append, List.length_append] at ordered
      exact List.eq_nil_of_length_eq_zero (by omega)
    rw [same, encode_append, encode_append, none, List.append_nil, List.take_left]
    exact List.drop_length

end ChartLift.Text.Utf8
