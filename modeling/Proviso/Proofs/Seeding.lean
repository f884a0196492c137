/-
  Where the seed of a test comes from.

  A test draws its random numbers from a generator of its own if the command line gives a seed, and
  else from the shared one, which the settings may have put into the state for a seed. A seed that
  counts has no influence on the rest of the settings (`ofLayer_seed`), and the steps of a test see
  nothing of where their generator comes from (`Run.test_congr`). So the same test with the same
  seed prints the same and ends the same, whichever way the seed is given, and a seed on the command
  line goes before all others (`run_test_seeded`).

  Modelled is that a generator for a seed is in one state, whether it is new or the shared one. Of
  the validation of raw values no more is used than `Validation.Faithful` names.
-/
import Proviso.Proofs.Files
import Proviso.Proofs.Flags
import Proviso.Proofs.Precedence
import Proviso.Proofs.Printing
import Proviso.Proofs.Spellings

namespace Proviso

variable {v : Settings.Validation}

namespace Settings

/-- The settings with another seed. -/
def withSeed (seed : Option Int) (s : Settings) : Settings := { s with seed := seed }

/-- An accepted seed has no influence on what is made of the other settings. -/
theorem ofLayer_seed {l : Layer v.Raw} {seed : Option Int}
    (h : Field.seed.coerce v l.seed = .ok seed) :
    ofLayer v l = (ofLayer v ⟨none, l.level, l.strict⟩).map (withSeed seed) := by
  have hseed : choose default.seed (seedOf v) l.seed = .ok seed := h
  unfold ofLayer
  rw [hseed]
  cases choose default.level (levelOf v) l.level with
  | error reason => rfl
  | ok level =>
    cases choose default.strict (strictOf v) l.strict with
    | error reason => rfl
    | ok strict => rfl

end Settings

namespace Command

open Outline (Position)

/-! ## The same test -/

/-- What a test is about, apart from random numbers: what is read from its file, its items and its
key, and the raw values that count for the settings besides the seed. -/
structure Trial (v : Settings.Validation) where
  source : Except Outline.File.Fault Outline
  items : List (Option Text)
  key : Given Text
  level : Option v.Raw
  strict : Option v.Raw

/-- The raw values that count when a file has a table for the settings. -/
def Invocation.layer (w : World v) (i : Invocation) (table : Toml.Table) :
    Settings.Layer v.Raw :=
  (i.overrides v).orElse (w.environment.orElse (.ofTable v table))

/-- A command line asks for the test, with a seed on it or without. -/
structure Trial.Asked (t : Trial v) (w : World v) (words : List Text) (i : Invocation)
    (table : Toml.Table) (seed : Given Int) : Prop where
  parse : parse words = .ok (some i)
  action : ∃ file, i.action = .test file t.items t.key seed ∧
    Outline.File.read w.disk file = t.source
  config : i.config ≠ .blank
  tables : Settings.Tables w.disk i.config.toOption table
  level : (i.layer w table).level = t.level
  strict : (i.layer w table).strict = t.strict

/-- A run of the test in which the integer is the seed, in one of three ways. -/
inductive Seeded (t : Trial v) (n : Int) (w : World v) (words : List Text) : Prop where
  /-- The command line gives it. Whatever the environment and the file say about a seed, it is
  accepted. -/
  | flag {i : Invocation} {table : Toml.Table} {seed : Option Int}
      (h : t.Asked w words i table (.value n))
      (hvalid : Settings.Field.seed.coerce v (i.layer w table).seed = .ok seed)
  /-- The environment gives it, and the command line gives none. -/
  | environment {i : Invocation} {table : Toml.Table} {text : Text}
      (h : t.Asked w words i table .no) (htext : w.environment.seed = some (v.ofText text))
      (hinteger : v.integer (v.ofText text) = .ok (some n))
  /-- The file gives it, and neither the command line nor the environment gives one. -/
  | file {i : Invocation} {table : Toml.Table}
      (h : t.Asked w words i table .no) (hsilent : w.environment.seed = none)
      (htable : table.find? Settings.Field.seed.key = some (.integer n))

/-- The world with the settings in force. -/
def World.under (w : World v) (s : Settings) : World v :=
  { w with shared := (s.configure w.shared).1 }

/-! ## Steps of a test -/

/-- The steps of a test see of the world what the file holds, and of the settings the level of the
log. -/
theorem Run.test_congr {w w' : World v} {s s' : Settings} {file file' : Text}
    {seed seed' : Given Int} {items : List (Option Text)} {key : Given Text}
    (hfile : Outline.File.read w.disk file = Outline.File.read w'.disk file')
    (hlevel : s.level = s'.level) (hgenerator : Run.generator w seed = Run.generator w' seed') :
    Run.test w s file items key seed = Run.test w' s' file' items key seed' := by
  unfold Run.test Run.readOutline
  rw [hfile, hlevel, hgenerator]

theorem steady_test (w : World v) (s : Settings) (file : Text) (items : List (Option Text))
    (key : Given Text) (seed : Given Int) : Steady (Run.test w s file items key seed) := by
  have hload (o : Outline) (p : Position) : Steady (Run.loadRule s.level o p) := by
    rw [← bind_pure (Run.loadRule s.level o p)]
    exact (Quiet.judgement.loadRule (Quiet.judgement.pure p.node.rule)).steady
  have hgenerator : Steady (Run.generator w seed) := by
    cases seed with
    | no => exact .pure _
    | blank => exact ⟨_, _, .die _⟩
    | value n => exact .pure _
  unfold Run.test
  refine (Quiet.judgement.readItems items).steady.bind fun ledger => ?_
  refine (Quiet.judgement.readOutline w file).steady.bind fun o => ?_
  refine (Quiet.judgement.select o key).steady.bind fun p => ?_
  refine (hload o p).bind fun rule => ?_
  refine hgenerator.bind fun generator => ?_
  split
  · exact ⟨_, _, .printLine _⟩
  · exact ⟨_, _, (Prints.printLine _).andThen (.exit 2)⟩

/-! ## Runs of a test -/

/-- The overrides say nothing about a seed. -/
theorem seed_layer (w : World v) (i : Invocation) (table : Toml.Table) :
    (i.layer w table).seed
      = (w.environment.seed <|> (table.find? Settings.Field.seed.key).map v.ofValue) := by
  have hoverrides : (i.overrides v).seed = none := by
    unfold Invocation.overrides
    split <;> rfl
  show ((i.overrides v).seed <|> _) = _
  rw [hoverrides]
  rfl

namespace Trial.Asked

variable {t : Trial v} {w : World v} {words : List Text} {i : Invocation} {table : Toml.Table}
  {given : Given Int} (h : t.Asked w words i table given) {seed : Option Int}
  (hseed : Settings.Field.seed.coerce v (i.layer w table).seed = .ok seed)

include h hseed

/-- The settings are those of the test but for the seed. -/
theorem load_eq :
    Settings.load v w.disk i.config.toOption w.environment (i.overrides v)
      = ((Settings.ofLayer v ⟨none, t.level, t.strict⟩).map (.withSeed seed)).mapError
          .invalid := by
  rw [Settings.load_eq_ofLayer h.tables, ← h.level, ← h.strict]
  exact congrArg _ (Settings.ofLayer_seed hseed)

/-- Raw values that are rejected end the run with a message. -/
theorem prints_rejected {rs : List Settings.Rejection}
    (hrejected : Settings.ofLayer v ⟨none, t.level, t.strict⟩ = .error rs) :
    Prints (Run.main w words)
      ("Error: ".toList ++ (Settings.Fault.invalid rs).message ++ ['\n']) (.error (.exit 1)) := by
  have hload := h.load_eq hseed
  rw [hrejected] at hload
  unfold Run.main
  rw [h.parse]
  exact (Prints.rejectSettings h.config hload).ended _

/-- Otherwise the run prints what the test prints when the settings are in force. -/
theorem prints_tested {s : Settings}
    (hloaded : Settings.ofLayer v ⟨none, t.level, t.strict⟩ = .ok s) {file : Text}
    (haction : i.action = .test file t.items t.key given) {text : Text}
    {result : Except Ending Unit}
    (htest : Prints
      (Run.test (w.under (s.withSeed seed)) (s.withSeed seed) file t.items t.key given)
      text result) :
    Prints (Run.main w words) text result := by
  have hload := h.load_eq hseed
  rw [hloaded] at hload
  refine Prints.main h.parse ⟨h.config, hload⟩ ?_
  rw [haction]
  exact htest

end Trial.Asked

/-- Whichever way the seed is given, the settings accept what they are given for it, and the test
draws from a generator for the seed. -/
theorem Seeded.asked (hv : v.Faithful) {t : Trial v} {n : Int} {w : World v} {words : List Text}
    (h : Seeded t n w words) :
    ∃ i table given seed, t.Asked w words i table given ∧
      Settings.Field.seed.coerce v (i.layer w table).seed = .ok seed ∧
      ∀ s : Settings, Run.generator (w.under (s.withSeed seed)) given = pure (.ofSeed n) := by
  cases h with
  | @flag i table seed h hvalid => exact ⟨i, table, _, seed, h, hvalid, fun _ => rfl⟩
  | @environment i table text h htext hinteger =>
    refine ⟨i, table, _, some n, h, ?_, fun _ => rfl⟩
    rw [seed_layer, htext]
    show (v.integer (v.ofText text)).mapError _ = _
    rw [hinteger]
    rfl
  | @file i table h hsilent htable =>
    refine ⟨i, table, _, some n, h, ?_, fun _ => rfl⟩
    rw [seed_layer, hsilent, htable]
    show (v.integer (v.ofValue (.integer n))).mapError _ = _
    rw [hv.integer_ofInteger]
    rfl

theorem Seeded.outcome_eq (hv : v.Faithful) {t : Trial v} {n : Int} {w w' : World v}
    {words words' : List Text} (h : Seeded t n w words)
    (h' : Seeded t n w' words') :
    (run w words).ending = (run w' words').ending ∧
      (run w words).output.out = (run w' words').output.out := by
  obtain ⟨i, table, given, seed, hasked, hseed, hgenerator⟩ := h.asked hv
  obtain ⟨i', table', given', seed', hasked', hseed', hgenerator'⟩ := h'.asked hv
  have hsame : ∃ text result, Prints (Run.main w words) text result ∧
      Prints (Run.main w' words') text result := by
    cases hloaded : Settings.ofLayer v ⟨none, t.level, t.strict⟩ with
    | error rs =>
      exact ⟨_, _, hasked.prints_rejected hseed hloaded, hasked'.prints_rejected hseed' hloaded⟩
    | ok s =>
      obtain ⟨file, haction, hfile⟩ := hasked.action
      obtain ⟨file', haction', hfile'⟩ := hasked'.action
      have hsteps :
          Run.test (w.under (s.withSeed seed)) (s.withSeed seed) file t.items t.key given
            = Run.test (w'.under (s.withSeed seed')) (s.withSeed seed') file' t.items t.key
                given' :=
        Run.test_congr (hfile.trans hfile'.symm) rfl ((hgenerator s).trans (hgenerator' s).symm)
      obtain ⟨text, result, htest⟩ := steady_test (w.under (s.withSeed seed)) (s.withSeed seed)
        file t.items t.key given
      exact ⟨text, result, hasked.prints_tested hseed hloaded haction htest,
        hasked'.prints_tested hseed' hloaded haction' (hsteps ▸ htest)⟩
  obtain ⟨text, result, hprints, hprints'⟩ := hsame
  obtain ⟨hout, hending⟩ := run_of_prints hprints
  obtain ⟨hout', hending'⟩ := run_of_prints hprints'
  exact ⟨hending.trans hending'.symm, hout.trans hout'.symm⟩

/-- With a faithful validation: If the decimal text of an integer is accepted as a seed from the
environment, it gives the integer; so do the flag with that text, which can be put into any command
line that tests without a seed, and a file with that text. Any two runs of one test in which one
integer is the seed, in whichever way it is given, end the same and print the same. So do runs in
which the command line gives it, whatever accepted seeds the environment and the file give
besides. The validation that runs is faithful. -/
theorem run_test_seeded (hv : v.Faithful) (t : Trial v) (n : Int) :
    (∀ taken, v.integer (v.ofText (Text.ofInt n)) = .ok taken → taken = some n ∧
      (∀ words config level file items key,
        parse words = .ok (some ⟨config, level, .test file items key .no⟩) →
        ∃ front rest, words = front ++ rest ∧
          parse (front ++ "--seed".toList :: Text.ofInt n :: rest)
            = .ok (some ⟨config, level, .test file items key (.value n)⟩)) ∧
      ∃ document table : Toml.Table, Toml.Document.parse (Settings.seedText n) = .ok document ∧
        document.find? Settings.sectionKey = some (.table table) ∧
        table.find? Settings.Field.seed.key = some (.integer n)) ∧
    (∀ w words w' words', Seeded t n w words → Seeded t n w' words' →
      (run w words).ending = (run w' words').ending ∧
      (run w words).output.out = (run w' words').output.out) ∧
    Settings.Validation.lenient.Faithful := by
  refine ⟨fun taken htaken => ?_, fun w words w' words' h h' => h.outcome_eq hv h',
    Settings.faithful_lenient⟩
  have hfits : Numeral.fits n = true := hv.fits_of_integer htaken
  have hargument := Numeral.argument?_ofInt hfits
  refine ⟨hv.integer_ofDecimal htaken, fun words config level file items key hparse => ?_, ?_⟩
  · exact parse_with_seed hargument hparse
  · exact ⟨_, _, Settings.parse_seedText hfits, rfl, rfl⟩

/-- A rule that draws in two groups, one inside the other, tested with the seed -7 on the command
line, in the environment and in a file, where other seeds may stand behind. -/
theorem run_test_seeded_nested :
    let home : List Text := ["home".toList]
    let data : Text := "c\n\trandom < 30\n\tor\n\t\trandom > 70\n\t\tand\n\t\t\trandom ! 9\n".toList
    let disk := Disk.ofEntries home
      [(home ++ ["a.txt".toList], .file (Utf8.encode data)),
       (home ++ ["a.toml".toList], .file (Utf8.encode (Settings.seedText (-7)))),
       (home ++ ["b.toml".toList], .file (Utf8.encode (Settings.seedText 3)))]
    let silent : World .lenient := ⟨disk, .none, .ofSeed 0⟩
    let other : World .lenient :=
      ⟨disk, ⟨some (some (.text " 1_0 ".toList)), none, none⟩, .ofSeed 0⟩
    let named : World .lenient := ⟨disk, ⟨some (some (.text "-7".toList)), none, none⟩, .ofSeed 0⟩
    let words (config : Text) : List Text :=
      ["--config".toList, config, "--log-level=debug".toList, "test".toList, "a.txt".toList]
    let flagged : List Text :=
      ["--log-level=debug".toList, "test".toList, "--seed=-7".toList, "a.txt".toList]
    (∃ front rest, words "b.toml".toList = front ++ rest ∧
      parse (front ++ "--seed".toList :: "-7".toList :: rest)
        = .ok (some ⟨.value "b.toml".toList, .value "debug".toList,
            .test "a.txt".toList [] .no (.value (-7))⟩)) ∧
    (run other flagged).ending = (run silent (words "a.toml".toList)).ending ∧
    (run other flagged).output.out = (run named (words "b.toml".toList)).output.out := by
  intro home data disk silent other named words flagged
  let t : Trial .lenient := ⟨.ok (Outline.parse "a.txt".toList data), [], .no,
    some (some (.text "debug".toList)), none⟩
  have hdata : disk.read (Disk.normalize "a.txt".toList) = .ok (Utf8.encode data) := by rfl
  have hsource : Outline.File.read disk "a.txt".toList = t.source :=
    Outline.File.read_of_encode hdata
  have htables (path : Text) (n : Int) (hfits : Numeral.fits n = true)
      (hread : disk.read (Disk.normalize path) = .ok (Utf8.encode (Settings.seedText n))) :
      Settings.Tables disk (some path) [(Settings.Field.seed.key, .integer n)] :=
    .ofSection hread (Utf8.decode_encode _) (Settings.parse_seedText hfits) rfl
  have hflagged : parse flagged = .ok (some ⟨.no, .value "debug".toList,
      .test "a.txt".toList [] .no (.value (-7))⟩) := by rfl
  have hnamed : parse (words "b.toml".toList) = .ok (some ⟨.value "b.toml".toList,
      .value "debug".toList, .test "a.txt".toList [] .no .no⟩) := by rfl
  have hsilent : parse (words "a.toml".toList) = .ok (some ⟨.value "a.toml".toList,
      .value "debug".toList, .test "a.txt".toList [] .no .no⟩) := by rfl
  have hflag : Seeded t (-7) other flagged :=
    .flag ⟨hflagged, ⟨_, rfl, hsource⟩, by decide, .noFile, rfl, rfl⟩ (by rfl)
  have henvironment : Seeded t (-7) named (words "b.toml".toList) := by
    have hshadowed := htables "b.toml".toList 3 (by decide) (by rfl)
    exact .environment ⟨hnamed, ⟨_, rfl, hsource⟩, by decide, hshadowed, rfl, rfl⟩ rfl (by rfl)
  have hfile : Seeded t (-7) silent (words "a.toml".toList) := by
    have hseed := htables "a.toml".toList (-7) (by decide) (by rfl)
    exact .file ⟨hsilent, ⟨_, rfl, hsource⟩, by decide, hseed, rfl, rfl⟩ rfl rfl
  obtain ⟨hroutes, hruns, -⟩ := run_test_seeded Settings.faithful_lenient t (-7)
  refine ⟨(hroutes (some (-7)) (by rfl)).2.1 _ _ _ _ _ _ hnamed, ?_, ?_⟩
  · exact (hruns _ _ _ _ hflag hfile).1
  · exact (hruns _ _ _ _ hflag henvironment).2

end Command

end Proviso
