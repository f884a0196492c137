/-
  What can keep settings from being loaded.

  Settings that are not loaded are refused as a mistake in the configuration, unless their file is
  no UTF-8 text or an integer of too many digits stands where one of its values is read, or no file
  can have its path (`load_refused_iff`).
-/
import Proviso.Proofs.Calls
import Proviso.Proofs.Documents
import Proviso.Proofs.Files
import Proviso.Settings.Lenient
import Proviso.Settings.Loading

namespace Proviso.Settings

/-! ## Settings from documents -/

/-- The faults that are told as mistakes in the configuration. -/
def Fault.IsMistake : Fault → Prop
  | .missing _ => True
  | .unreadable _ => True
  | .notTable _ => True
  | .invalid _ => True
  | .encoding _ => False
  | .numeral _ => False
  | .badPath _ => False

/-- Settings that are not there have been rejected, or their file has a fault. -/
theorem load_eq_error {v : Validation} {disk : Disk} {path : Option Text}
    {environment overrides : Layer v.Raw} {f : Fault}
    (h : load v disk path environment overrides = .error f) :
    (∃ rejections, f = .invalid rejections) ∨
      ∃ file, path = some file ∧ tableOfFile disk file = .error f := by
  have hinvalid : ∀ l, (ofLayer v l).mapError Fault.invalid = .error f →
      ∃ rejections, f = .invalid rejections := by
    intro l hl
    cases hrejected : ofLayer v l with
    | ok s =>
      rw [hrejected] at hl
      exact nomatch hl
    | error rejections =>
      rw [hrejected] at hl
      exact ⟨rejections, (Except.error.inj hl).symm⟩
  unfold load at h
  cases path with
  | none => exact .inl (hinvalid _ h)
  | some file =>
    dsimp only at h
    cases hfile : tableOfFile disk file with
    | ok l =>
      rw [hfile] at h
      exact .inl (hinvalid _ h)
    | error f' =>
      rw [hfile] at h
      have hsame : f' = f := Except.error.inj h
      exact .inr ⟨file, rfl, hsame ▸ hfile⟩

/-- A fault of the file is the fault of loading. -/
theorem load_of_tableOfFile {v : Validation} {disk : Disk} {path : Text} {fault : Fault}
    (h : tableOfFile disk path = .error fault) (environment overrides : Layer v.Raw) :
    load v disk (some path) environment overrides = .error fault := by
  unfold load
  dsimp only
  rw [h]
  rfl

/-- Nothing about the file of the settings goes unanswered: a file can have its path, and what can
be read there, if anything can, is UTF-8 text in which no integer is found too long. -/
structure Answerable (disk : Disk) (path : Text) : Prop where
  place : disk.read (Disk.normalize path) ≠ .error .nullCharacter
  text : ∀ bytes, disk.read (Disk.normalize path) = .ok bytes →
    ∃ t, Utf8.decode bytes = .ok t ∧ ∀ fault, Toml.Document.parse t ≠ .error (.numeral fault)

theorem tableOfFile_of_read {disk : Disk} {path : Text} {bytes : List UInt8}
    (h : disk.read (Disk.normalize path) = .ok bytes) :
    tableOfFile disk path = tableOfBytes (Disk.normalize path) bytes := by
  unfold tableOfFile
  dsimp only
  rw [h]

theorem tableOfBytes_of_parse {path t : Text} {bytes : List UInt8} {document : Toml.Table}
    (hdecode : Utf8.decode bytes = .ok t) (hparse : Toml.Document.parse t = .ok document) :
    tableOfBytes path bytes = tableOfDocument path document := by
  unfold tableOfBytes
  rw [hdecode]
  dsimp only
  rw [hparse]

theorem tableOfFile_of_numeral {disk : Disk} {path t : Text} {fault : Numeral.Fault}
    (hread : disk.read (Disk.normalize path) = .ok (Utf8.encode t))
    (hparse : Toml.Document.parse t = .error (.numeral fault)) :
    tableOfFile disk path = .error (.numeral fault) := by
  rw [tableOfFile_of_read hread, tableOfBytes, Utf8.decode_encode]
  dsimp only
  rw [hparse]

theorem tableOfDocument_refused {path : Text} {document : Toml.Table} {fault : Fault}
    (h : tableOfDocument path document = .error fault) : fault.IsMistake := by
  unfold tableOfDocument at h
  split at h
  · exact nomatch h
  · exact nomatch h
  · exact Except.error.inj h ▸ trivial

/-- A file is refused for a mistake, if at all, exactly if everything about it is answered. -/
theorem tableOfFile_refused_iff (disk : Disk) (path : Text) :
    (∀ fault, tableOfFile disk path = .error fault → fault.IsMistake) ↔ Answerable disk path := by
  unfold tableOfFile tableOfBytes
  dsimp only
  cases hread : disk.read (Disk.normalize path) with
  | error fault =>
    have hbytes : ∀ bytes, disk.read (Disk.normalize path) ≠ .ok bytes := by simp [hread]
    cases fault with
    | nullCharacter =>
      exact ⟨fun h => (h _ rfl).elim, fun h => absurd hread h.place⟩
    | _ =>
      refine ⟨fun _ => ⟨by simp [hread], fun bytes h => absurd h (hbytes bytes)⟩, ?_⟩
      exact fun _ fault h => Except.error.inj h ▸ trivial
  | ok bytes =>
    dsimp only
    have hplace : disk.read (Disk.normalize path) ≠ .error .nullCharacter := by simp [hread]
    have hsame : ∀ bytes', disk.read (Disk.normalize path) = .ok bytes' → bytes' = bytes :=
      fun bytes' h => Except.ok.inj (h.symm.trans hread)
    cases hdecode : Utf8.decode bytes with
    | error fault =>
      refine ⟨fun h => (h _ rfl).elim, fun h => ?_⟩
      obtain ⟨t, ht, -⟩ := h.text bytes hread
      exact nomatch ht.symm.trans hdecode
    | ok t =>
      dsimp only
      cases hparse : Toml.Document.parse t with
      | error fault =>
        cases fault with
        | malformed =>
          refine ⟨fun _ => ⟨hplace, fun bytes' h => ⟨t, hsame bytes' h ▸ hdecode, ?_⟩⟩, ?_⟩
          · simp [hparse]
          · exact fun _ f h => Except.error.inj h ▸ trivial
        | numeral fault =>
          refine ⟨fun h => (h _ rfl).elim, fun h => ?_⟩
          obtain ⟨t', ht', hnone⟩ := h.text bytes hread
          rw [Except.ok.inj (ht'.symm.trans hdecode)] at hnone
          exact absurd hparse (hnone fault)
      | ok document =>
        refine ⟨fun _ => ⟨hplace, fun bytes' h => ⟨t, hsame bytes' h ▸ hdecode, ?_⟩⟩, ?_⟩
        · simp [hparse]
        · exact fun _ f h => tableOfDocument_refused h

/-! ## Documents with a power of ten -/

/-- A power of ten, as a document writes it: a one and zeros. -/
theorem beginsOverlong_power {zeros : Nat} (h : Numeral.maxDigits ≤ zeros) :
    Toml.BeginsOverlong ('1' :: List.replicate zeros '0' ++ ['\n']) (zeros + 1) := by
  have hdigit : ∀ c ∈ List.replicate zeros '0', c.isDigit = true := by
    intro c hc
    rw [List.eq_of_mem_replicate hc]
    rfl
  have hlength : ('1' :: List.replicate zeros '0').filter Char.isDigit
      = '1' :: List.replicate zeros '0' :=
    List.filter_eq_self.2 (List.forall_mem_cons.2 ⟨rfl, hdigit⟩)
  have hended : Toml.Ended ['\n'] := ⟨Toml.not_runsOn_break [], nofun, nofun⟩
  have hbegins := Toml.BeginsOverlong.mk (c := '1') .bare rfl (by decide) (.of_forall hdigit)
    hended (by rw [hlength, List.length_cons, List.length_replicate]; omega)
  rwa [hlength, List.length_cons, List.length_replicate] at hbegins

theorem readsValueAt_power (zeros : Nat) :
    Toml.Document.ReadsValueAt ("x = 1".toList ++ List.replicate zeros '0' ++ ['\n'])
      ('1' :: List.replicate zeros '0' ++ ['\n']) := by
  have hreturn : '\r' ∉ "x = 1".toList ++ List.replicate zeros '0' ++ ['\n'] := by
    simp [List.mem_replicate]
  have hkey : ∀ t, Toml.readKey.run ("x = 1".toList ++ t)
      = .ok (["x".toList], "= 1".toList ++ t) := fun _ => rfl
  exact Toml.Document.readsValueAt_first hreturn (by decide) (hkey _)

/-! ## What is told -/

/-- Loading settings ends in settings or in a mistake that is told, exactly if everything about
their file, where one is given, is answered; environment and caller make no difference to that. An
integer is found too long exactly if it stands where one of the values of the text is read, and none
is in a text without a decimal integer of more digits than can be read. -/
theorem load_refused_iff (v : Validation) (disk : Disk) (path : Option Text)
    (environment overrides : Layer v.Raw) :
    (((∃ s, load v disk path environment overrides = .ok s) ∨
        ∃ fault, load v disk path environment overrides = .error fault ∧ fault.IsMistake) ↔
      ∀ file, path = some file → Answerable disk file) ∧
    (∀ t fault, Toml.Document.parse t = .error (.numeral fault) ↔
      ∃ p digits, Toml.Document.ReadsValueAt t p ∧ Toml.BeginsOverlong p digits ∧
        fault = .tooLongToRead digits) ∧
    ∀ t, (∀ digits, ¬ Toml.HoldsOverlong t digits) →
      ∀ fault, Toml.Document.parse t ≠ .error (.numeral fault) := by
  refine ⟨?_, fun t fault => Toml.Document.parse_eq_error_iff, fun t h fault hparse => ?_⟩
  · have hanswer : ((∃ s, load v disk path environment overrides = .ok s) ∨
        ∃ fault, load v disk path environment overrides = .error fault ∧ fault.IsMistake) ↔
        ∀ fault, load v disk path environment overrides = .error fault → fault.IsMistake := by
      cases load v disk path environment overrides with
      | ok s => simp
      | error fault => simp
    rw [hanswer]
    constructor
    · rintro h file rfl
      exact (tableOfFile_refused_iff disk file).1 fun fault hfile =>
        h fault (load_of_tableOfFile hfile environment overrides)
    · intro h fault hload
      rcases load_eq_error hload with ⟨rejections, rfl⟩ | ⟨file, hfile, hfault⟩
      · exact trivial
      · exact (tableOfFile_refused_iff disk file).2 (h file hfile) fault hfault
  · obtain ⟨digits, -, hholds⟩ := Toml.overlong_of_parse hparse
    exact h digits hholds

/-- Neither a byte that begins no character nor an integer of one digit too many is told as a
mistake. -/
theorem load_not_refused :
    let home : List Text := ["home".toList]
    let path : Text := "a.toml".toList
    let holding := fun bytes => Disk.ofEntries home [(home ++ [path], .file bytes)]
    let power : Text := "x = 1".toList ++ List.replicate Numeral.maxDigits '0' ++ ['\n']
    let byte : Fault := .encoding ⟨0, 0xFF, 1, .invalidStart⟩
    let long : Fault := .numeral (.tooLongToRead (Numeral.maxDigits + 1))
    (load .lenient (holding [0xFF]) (some path) .none .none = .error byte ∧ ¬ byte.IsMistake) ∧
    load .lenient (holding (Utf8.encode power)) (some path) .none .none = .error long ∧
      ¬ long.IsMistake := by
  intro home path holding power byte long
  refine ⟨⟨by decide +kernel, id⟩, ?_, id⟩
  have hread : ∀ bytes, (holding bytes).read (Disk.normalize path) = .ok bytes := fun _ => rfl
  have hparse := Toml.Document.parse_eq_error_iff.2 ⟨_, _, readsValueAt_power Numeral.maxDigits,
    beginsOverlong_power (Nat.le_refl Numeral.maxDigits), rfl⟩
  exact load_of_tableOfFile (tableOfFile_of_numeral (hread _) hparse) .none .none

end Proviso.Settings
