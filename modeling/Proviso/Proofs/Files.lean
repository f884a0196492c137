/-
  Reading a file is reading the text in it.

  The bytes that encode a text are read as that text (`decode_encode`): the leading byte of a
  character says how many bytes follow, and each byte holds six more bits of it. A byte order mark
  in front of a stored file is dropped (`decodeFile_encode`). The line feeds that take the place of
  carriage returns end the same lines (`lines_unifyBreaks`), so the outline of a file is that of
  the text without its mark, read as it is (`read_encoded`).
-/
import Proviso.Outline.File
import Proviso.Proofs.Drafts

namespace Proviso

/-! ## Bytes and the text they encode -/

namespace Utf8

theorem toNat_byte {n : Nat} (h : n < 0x100) : (UInt8.ofNat n).toNat = n :=
  UInt8.toNat_ofNat_of_lt h

theorem byte_lt {n : Nat} (h : n < 0x100) (b : UInt8) : UInt8.ofNat n < b ↔ n < b.toNat := by
  rw [UInt8.lt_iff_toNat_lt, toNat_byte h]

theorem lt_byte {n : Nat} (h : n < 0x100) (b : UInt8) : b < UInt8.ofNat n ↔ b.toNat < n := by
  rw [UInt8.lt_iff_toNat_lt, toNat_byte h]

theorem tail?_byte {y : Nat} (hy : y < 0x40) : tail? (UInt8.ofNat (y + 0x80)) = some y := by
  have hb : y + 0x80 < 0x100 := by omega
  have hrange : (0x80 : UInt8) ≤ UInt8.ofNat (y + 0x80) ∧ UInt8.ofNat (y + 0x80) ≤ 0xBF := by
    simp only [UInt8.le_iff_toNat_le, toNat_byte hb, UInt8.reduceToNat]
    omega
  rw [tail?, if_pos hrange, toNat_byte hb, Nat.add_sub_cancel]

/-- The payloads that may come second, after the leading byte `a`. -/
def Fits (a y : Nat) : Prop :=
  y < 0x40 ∧ (a = 0xE0 → 0x20 ≤ y) ∧ (a = 0xED → y < 0x20) ∧ (a = 0xF0 → 0x10 ≤ y)
    ∧ (a = 0xF4 → y < 0x10)

theorem second?_byte {a y : Nat} (ha : a < 0x100) (h : Fits a y) :
    second? (UInt8.ofNat a) (UInt8.ofNat (y + 0x80)) = some y := by
  obtain ⟨hy, hE0, hED, hF0, hF4⟩ := h
  have hb : y + 0x80 < 0x100 := by omega
  rw [second?, if_neg, tail?_byte hy]
  simp only [← UInt8.toNat_inj, byte_lt hb, lt_byte hb, toNat_byte ha, UInt8.reduceToNat]
  omega

section Sequences

variable (position : Nat) (rest : List UInt8) {a y z w : Nat}

theorem decodeFrom_one (ha : a < 0x80) :
    decodeFrom position (UInt8.ofNat a :: rest)
      = (decodeFrom (position + 1) rest).map (Char.ofNat a :: ·) := by
  have hbyte : a < 0x100 := by omega
  have hlow : UInt8.ofNat a < 0x80 := (byte_lt hbyte 0x80).2 ha
  rw [decodeFrom.eq_def]
  dsimp only
  rw [if_pos hlow, toNat_byte hbyte]

theorem decodeFrom_two (ha : 0xC2 ≤ a) (ha' : a < 0xE0) (hy : Fits a y) :
    decodeFrom position (UInt8.ofNat a :: UInt8.ofNat (y + 0x80) :: rest)
      = (decodeFrom (position + 2) rest).map (Char.ofNat ((a - 0xC0) * 0x40 + y) :: ·) := by
  have hbyte : a < 0x100 := by omega
  have hlow : ¬ a < 0x80 := by omega
  have hlead : ¬ (a < 0xC2 ∨ 0xF4 < a) := by omega
  simp only [decodeFrom, byte_lt hbyte, lt_byte hbyte, UInt8.reduceToNat, if_neg hlow,
    if_neg hlead, second?_byte hbyte hy, if_pos ha', toNat_byte hbyte]

theorem decodeFrom_three (ha : 0xE0 ≤ a) (ha' : a < 0xF0) (hy : Fits a y) (hz : z < 0x40) :
    decodeFrom position
        (UInt8.ofNat a :: UInt8.ofNat (y + 0x80) :: UInt8.ofNat (z + 0x80) :: rest)
      = (decodeFrom (position + 3) rest).map
          (Char.ofNat ((a - 0xE0) * 0x1000 + y * 0x40 + z) :: ·) := by
  have hbyte : a < 0x100 := by omega
  have hlow : ¬ a < 0x80 := by omega
  have hlead : ¬ (a < 0xC2 ∨ 0xF4 < a) := by omega
  have htwo : ¬ a < 0xE0 := by omega
  simp only [decodeFrom, byte_lt hbyte, lt_byte hbyte, UInt8.reduceToNat, if_neg hlow,
    if_neg hlead, second?_byte hbyte hy, if_neg htwo, tail?_byte hz, if_pos ha', toNat_byte hbyte]

theorem decodeFrom_four (ha : 0xF0 ≤ a) (ha' : a ≤ 0xF4) (hy : Fits a y) (hz : z < 0x40)
    (hw : w < 0x40) :
    decodeFrom position
        (UInt8.ofNat a :: UInt8.ofNat (y + 0x80) :: UInt8.ofNat (z + 0x80)
          :: UInt8.ofNat (w + 0x80) :: rest)
      = (decodeFrom (position + 4) rest).map
          (Char.ofNat ((a - 0xF0) * 0x40000 + y * 0x1000 + z * 0x40 + w) :: ·) := by
  have hbyte : a < 0x100 := by omega
  have hlow : ¬ a < 0x80 := by omega
  have hlead : ¬ (a < 0xC2 ∨ 0xF4 < a) := by omega
  have htwo : ¬ a < 0xE0 := by omega
  have hthree : ¬ a < 0xF0 := by omega
  simp only [decodeFrom, byte_lt hbyte, lt_byte hbyte, UInt8.reduceToNat, if_neg hlow,
    if_neg hlead, second?_byte hbyte hy, if_neg htwo, tail?_byte hz, if_neg hthree, tail?_byte hw,
    toNat_byte hbyte]

/-- The bytes of a character are read as that character. -/
theorem decodeFrom_encodeChar (c : Char) :
    decodeFrom position (String.utf8EncodeChar c ++ rest)
      = (decodeFrom (position + (String.utf8EncodeChar c).length) rest).map (c :: ·) := by
  obtain ⟨n, hn⟩ : ∃ n, c.toNat = n := ⟨_, rfl⟩
  have hc : Char.ofNat n = c := by rw [← hn, Char.ofNat_toNat]
  -- No character is a surrogate; such a number would be refused behind the byte 0xED.
  have hscalar : n < 0xD800 ∨ 0xDFFF < n ∧ n < 0x110000 := hn ▸ c.valid
  have hval : c.val.toNat = n := hn
  unfold String.utf8EncodeChar
  dsimp only
  rw [hval]
  split
  · rw [List.singleton_append, decodeFrom_one _ _ (by omega), hc]
    rfl
  split
  · have hfits : Fits (n / 64 % 32 + 192) (n % 64) := by unfold Fits; omega
    have hsum : (n / 64 % 32 + 192 - 0xC0) * 0x40 + n % 64 = n := by omega
    rw [List.cons_append, List.singleton_append,
      decodeFrom_two _ _ (by omega) (by omega) hfits, hsum, hc]
    rfl
  split
  · have hfits : Fits (n / 4096 % 16 + 224) (n / 64 % 64) := by unfold Fits; omega
    have hsum : (n / 4096 % 16 + 224 - 0xE0) * 0x1000 + n / 64 % 64 * 0x40 + n % 64 = n := by
      omega
    rw [List.cons_append, List.cons_append, List.singleton_append,
      decodeFrom_three _ _ (by omega) (by omega) hfits (by omega), hsum, hc]
    rfl
  · have hfits : Fits (n / 262144 % 8 + 240) (n / 4096 % 64) := by unfold Fits; omega
    have hsum : (n / 262144 % 8 + 240 - 0xF0) * 0x40000 + n / 4096 % 64 * 0x1000
        + n / 64 % 64 * 0x40 + n % 64 = n := by omega
    rw [List.cons_append, List.cons_append, List.cons_append, List.singleton_append,
      decodeFrom_four _ _ (by omega) (by omega) hfits (by omega) (by omega), hsum, hc]
    rfl

theorem decodeFrom_encode (t : Text) : decodeFrom position (encode t) = .ok t := by
  induction t generalizing position with
  | nil => rfl
  | cons c t ih =>
    rw [encode, List.flatMap_cons, decodeFrom_encodeChar, ← encode, ih]
    rfl

end Sequences

/-- A text is read back from the bytes that encode it. -/
theorem decode_encode (t : Text) : decode (encode t) = .ok t := decodeFrom_encode 0 t

theorem encode_mark (t : Text) :
    encode (Outline.byteOrderMark :: t) = 0xEF :: 0xBB :: 0xBF :: encode t := rfl

/-- Bytes that begin like a mark are read as a text that begins with the mark. -/
theorem exists_of_decode_mark {rest : List UInt8} {t : Text}
    (h : decode (0xEF :: 0xBB :: 0xBF :: rest) = .ok t) :
    ∃ s, t = Outline.byteOrderMark :: s := by
  have hread := decodeFrom_encodeChar 0 rest Outline.byteOrderMark
  have hmap : decode (0xEF :: 0xBB :: 0xBF :: rest)
      = (decodeFrom 3 rest).map (Outline.byteOrderMark :: ·) := hread
  rw [hmap] at h
  cases hrest : decodeFrom 3 rest with
  | error fault =>
    rw [hrest] at h
    exact absurd h (by simp [Except.map])
  | ok s =>
    rw [hrest] at h
    exact ⟨s, (Except.ok.inj h).symm⟩

/-- The text of a stored file is the text without its mark. -/
theorem decodeFile_encode (t : Text) : decodeFile (encode t) = .ok (Outline.dropMark t) := by
  have hread := decode_encode t
  unfold decodeFile
  split
  · next h =>
    have hshort : decode [0xEF] = .error ⟨0, 0xEF, 1, .unexpectedEnd⟩ := rfl
    rw [h, hshort] at hread
    exact absurd hread (by simp)
  · next h =>
    have hshort : decode [0xEF, 0xBB] = .error ⟨0, 0xEF, 2, .unexpectedEnd⟩ := rfl
    rw [h, hshort] at hread
    exact absurd hread (by simp)
  · next rest h =>
    rw [h] at hread
    obtain ⟨s, rfl⟩ := exists_of_decode_mark hread
    have hrest : encode s = rest := by simpa [encode_mark] using h
    rw [← hrest, decode_encode, Outline.dropMark, if_pos rfl]
  · next hone htwo hthree =>
    rw [hread]
    cases t with
    | nil => rfl
    | cons c t =>
      rw [Outline.dropMark, if_neg]
      rintro rfl
      exact hthree _ (encode_mark t)

end Utf8

/-! ## Lines that end in carriage returns -/

namespace Text

theorem linesFrom_unifyBreaks (begun t : Text) :
    linesFrom begun (unifyBreaks t) = linesFrom begun t := by
  fun_induction unifyBreaks t generalizing begun with
  | case1 => rfl
  | case2 t ih => rw [linesFrom_newline, ih, linesFrom]
  | case3 c t hpair ih =>
    by_cases hr : c = '\r'
    · have hhead : c = '\r' → t.head? ≠ some '\n' := by
        rintro rfl h
        obtain ⟨s, rfl⟩ := List.head?_eq_some_iff.1 h
        exact hpair s rfl rfl
      rw [if_pos hr, linesFrom_newline, ih, linesFrom_break (hr ▸ rfl) begun hhead]
    · rw [if_neg hr]
      by_cases hc : isLineBreak c = true
      · rw [linesFrom_break hc begun (absurd · hr), linesFrom_break hc begun (absurd · hr), ih]
      · rw [linesFrom_cons begun _ (Bool.eq_false_iff.2 hc),
          linesFrom_cons begun _ (Bool.eq_false_iff.2 hc), ih]

/-- Line feeds in place of carriage returns end the same lines. -/
theorem lines_unifyBreaks (t : Text) : (unifyBreaks t).lines = t.lines :=
  linesFrom_unifyBreaks [] t

theorem unifyBreaks_cons {c : Char} (hc : c ≠ '\r') (t : Text) :
    unifyBreaks (c :: t) = c :: unifyBreaks t := by
  rw [unifyBreaks, if_neg hc]
  exact fun _ h => absurd h hc

theorem head?_unifyBreaks {c : Char} (hc : c ≠ '\n') (t : Text) :
    (unifyBreaks t).head? = some c → t.head? = some c := by
  fun_induction unifyBreaks t with
  | case1 => exact id
  | case2 t ih => exact fun h => absurd (Option.some.inj h).symm hc
  | case3 b t hpair ih =>
    intro h
    by_cases hr : b = '\r'
    · rw [if_pos hr] at h
      exact absurd (Option.some.inj h).symm hc
    · rwa [if_neg hr] at h

end Text

namespace Outline

theorem dropMark_unifyBreaks (t : Text) :
    dropMark (Text.unifyBreaks t) = Text.unifyBreaks (dropMark t) := by
  by_cases h : t.head? = some byteOrderMark
  · obtain ⟨s, rfl⟩ := List.head?_eq_some_iff.1 h
    rw [Text.unifyBreaks_cons (by decide), dropMark, if_pos rfl, dropMark, if_pos rfl]
  · rw [dropMark_of_head h, dropMark_of_head]
    exact fun hu => h (Text.head?_unifyBreaks (by decide) t hu)

/-- The outline of a text does not depend on how its carriage returns are treated. -/
theorem parse_unifyBreaks (source t : Text) :
    parse source (Text.unifyBreaks t) = parse source t := by
  have hcontent : content (Text.unifyBreaks t) = content t := by
    rw [content, dropMark_unifyBreaks, Text.lines_unifyBreaks]
    rfl
  rw [parse, nodesOf, links, hcontent]
  rfl

theorem File.ofBytes_encode (path t : Text) :
    File.ofBytes path (Utf8.encode t) = .ok (parse path (dropMark t)) := by
  simp only [File.ofBytes, Utf8.decodeFile_encode, parse_unifyBreaks]

/-- The outline of a file that holds the bytes of a text. -/
theorem File.read_of_encode {disk : Disk} {path t : Text}
    (hfile : disk.read (Disk.normalize path) = .ok (Utf8.encode t)) :
    File.read disk path = .ok (parse (Disk.normalize path) (dropMark t)) := by
  have hbytes : File.read disk path = ofBytes (Disk.normalize path) (Utf8.encode t) := by
    rw [File.read, hfile]
  rw [hbytes, ofBytes_encode]

/-- A file that holds the bytes of a text is read, and its outline is that of the text without the
mark in front; that line feeds take the place of carriage returns is not seen in any line or in the
outline of any text. -/
theorem File.read_encoded (disk : Disk) (path t : Text)
    (hfile : disk.read (Disk.normalize path) = .ok (Utf8.encode t)) :
    File.read disk path = .ok (parse (Disk.normalize path) (dropMark t)) ∧
      ∀ source s, (Text.unifyBreaks s).lines = s.lines ∧
        parse source (Text.unifyBreaks s) = parse source s :=
  ⟨read_of_encode hfile, fun source s => ⟨Text.lines_unifyBreaks s, parse_unifyBreaks source s⟩⟩

/-- A file with two marks, with carriage returns before, after and without line feeds, and with
characters of two, three and four bytes. -/
theorem File.read_encoded_mixed_breaks :
    let t : Text := "\uFEFF\uFEFFor\r\n\r é\r\r\n\n\t\u2028  \"😀\r ¶\u2029z".toList
    let disk := Disk.ofEntries ["home".toList] [(["home".toList, "a.txt".toList],
      .file (Utf8.encode t))]
    disk.read (Disk.normalize "./a.txt".toList) = .ok (Utf8.encode t) ∧
      File.read disk "./a.txt".toList = .ok (parse "a.txt".toList t.tail) := by
  intro t disk
  have hfile : disk.read (Disk.normalize "./a.txt".toList) = .ok (Utf8.encode t) := rfl
  exact ⟨hfile, (File.read_encoded disk "./a.txt".toList t hfile).1⟩

end Outline

end Proviso
