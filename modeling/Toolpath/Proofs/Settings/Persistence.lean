import Mathlib
import Toolpath.Proofs.Json.Document
import Toolpath.Proofs.Json.Exact
import Toolpath.Proofs.Settings.Check
import Toolpath.Proofs.Settings.Tree
import Toolpath.Proofs.Toml.Section
import Toolpath.Settings.Store
import Toolpath.Storage.Written

/-!
# Settings kept in files

What is loaded from a file that settings were saved to: `load_save`.
-/

namespace Toolpath.Settings

open Toolpath.Json (Document Numeral)
open Toolpath.Toml (Section Plain)
open Storage (Path Tree Source)

namespace Config

/-- The whole numbers of a configuration. -/
def wholes (c : Config) : List ℕ :=
  [c.interpreter.repeatDepth.toNat, c.playback.tick.toNat, c.playback.removalInterval.toNat]

/-! ## JSON -/

theorem wellFormed_ofFloat (x : Float) : (Document.ofFloat x).WellFormed := by
  rw [Document.ofFloat]
  split
  · rename_i n hn
    exact .numeral (Json.Numeral.wellFormed_ofFloat? hn)
  · exact .null

theorem wellFormed_ofNat (n : ℕ) : (Document.ofNat n).WellFormed :=
  .numeral (Json.Numeral.wellFormed_ofNat n)

theorem wellFormed_ofEntries {entries : List (String × Document)}
    (h : ∀ e ∈ entries, e.2.WellFormed) : (Document.ofEntries entries).WellFormed := by
  refine .table fun e he ↦ ?_
  obtain ⟨f, hf, rfl⟩ := List.mem_map.1 he
  exact h f hf

theorem wellFormed_document (c : Config) : c.document.WellFormed := by
  have hreal := wellFormed_ofFloat
  have hnat := wellFormed_ofNat
  have horigin : (Document.list [.ofFloat c.stock.origin.x, .ofFloat c.stock.origin.y,
      .ofFloat c.stock.origin.z]).WellFormed := .list (by simp [hreal])
  refine wellFormed_ofEntries ?_
  simp only [List.forall_mem_cons]
  refine ⟨wellFormed_ofEntries ?_, wellFormed_ofEntries ?_, wellFormed_ofEntries ?_, by simp⟩ <;>
  simp [hreal, hnat, horigin]

/-- A number in a machine word is found in its numeral again. -/
theorem natural?_ofNat {n : ℕ} (hn : n < 2 ^ 64) :
    Readable.natural? (Document.ofNat n) = some n := by
  simp [Readable.natural?, Document.natural?, Document.ofNat, Json.Numeral.number?_ofNat hn]

theorem word64?_ofNat (w : UInt64) : Readable.word64? (Document.ofNat w.toNat) = some w :=
  Readable.word64?_of_natural? (natural?_ofNat w.toNat_lt)

theorem word32?_ofNat (w : UInt32) : Readable.word32? (Document.ofNat w.toNat) = some w :=
  Readable.word32?_of_natural? (natural?_ofNat (w.toNat_lt.trans (by decide)))

/-- Only real numbers can change on the way. -/
theorem config?_document (c : Config) :
    (Readable.config? c.document = some c ↔
      ∀ x ∈ c.reals, (Document.ofFloat x).real? = some x) ∧
    ∀ d, Readable.config? c.document = some d → d.wholes = c.wholes := by
  obtain ⟨⟨a, b⟩, ⟨d, e, f⟩, ⟨g, h, i, ⟨j, k, l⟩, m, n⟩⟩ := c
  rw [Readable.config?_of_entries? rfl, Readable.interpreter?_of_entries? rfl,
    Readable.playback?_of_entries? rfl, Readable.stock?_of_entries? rfl]
  have hpoint : Readable.point? (Document.list [.ofFloat j, .ofFloat k, .ofFloat l]) = do
      return ⟨← (Document.ofFloat j).real?, ← (Document.ofFloat k).real?,
        ← (Document.ofFloat l).real?⟩ := rfl
  simp only [word64?_ofNat, word32?_ofNat, hpoint, reals, List.forall_mem_cons]
  constructor
  · simp [Readable.real?, Option.bind_eq_some_iff, and_assoc]
  · intro c' hc'
    simp only [Option.bind_eq_bind, Option.bind_eq_some_iff] at hc'
    obtain ⟨_, ⟨_, _, _, ⟨⟩, ⟨⟩⟩, _, ⟨_, ⟨⟩, _, _, _, ⟨⟩, ⟨⟩⟩, _, _, ⟨⟩⟩ := hc'
    rfl

/-- A configuration is read back from its JSON text if its real numbers are read back from their
numerals, and its whole numbers are in any case. -/
theorem ofJson?_toJson (c : Config) :
    (ofJson? c.toJson = some c ↔ ∀ x ∈ c.reals, (Document.ofFloat x).real? = some x) ∧
    ∀ d, ofJson? c.toJson = some d → d.wholes = c.wholes := by
  rw [ofJson?, toJson, Document.read?_pretty c.wellFormed_document]
  exact c.config?_document

/-! ## TOML -/

/-- The whole numbers of a configuration are integers of TOML. -/
def Fits (c : Config) : Prop :=
  c.interpreter.repeatDepth.toNat < 2 ^ 63 ∧ c.playback.tick.toNat < 2 ^ 63

instance (c : Config) : Decidable c.Fits := inferInstanceAs (Decidable (_ ∧ _))

theorem toToml?_eq (c : Config) :
    c.toToml? = if c.Fits then some (Section.document c.sections) else none := by
  have hfits :
      (fits c.interpreter.repeatDepth.toNat && fits c.playback.tick.toNat) = true ↔ c.Fits := by
    simp only [fits, Fits, Bool.and_eq_true, decide_eq_true_eq]
  by_cases h : c.Fits
  · rw [toToml?, if_pos (hfits.2 h), if_pos h]
  · rw [toToml?, if_neg (mt hfits.1 h), if_neg h]

/-- A number below 2⁶³ is an integer in range. -/
theorem fits_integer {n : ℕ} (h : n < 2 ^ 63) : (Plain.integer n).Fits := by
  rw [Plain.Fits]
  omega

theorem sound_sections {c : Config} (h : c.Fits) : ∀ s ∈ c.sections, s.Sound := by
  have hremoval : c.playback.removalInterval.toNat < 2 ^ 63 :=
    c.playback.removalInterval.toNat_lt.trans (by decide)
  simp only [sections, List.forall_mem_cons]
  refine ⟨?_, ?_, ?_, by simp⟩
  · refine .of_keys "interpreter" ["arc_step_degrees", "max_repeat_depth"] rfl rfl
      (by decide) (by decide) ?_
    simp only [List.forall_mem_cons]
    exact ⟨trivial, fits_integer h.1, by simp⟩
  · refine .of_keys "playback" ["tick_interval_ms", "default_speed", "removal_interval"] rfl rfl
      (by decide) (by decide) ?_
    simp only [List.forall_mem_cons]
    exact ⟨fits_integer h.2, trivial, fits_integer hremoval, by simp⟩
  · refine .of_keys "stock" ["width", "height", "depth", "origin", "resolution", "tool_radius"]
      rfl rfl (by decide) (by decide) ?_
    simp only [List.forall_mem_cons]
    exact ⟨trivial, trivial, trivial, trivial, trivial, trivial, by simp⟩

theorem nodup_sections (c : Config) : (c.sections.map Section.name).Nodup := by
  have hnames : c.sections.map Section.name = ["interpreter", "playback", "stock"] := rfl
  rw [hnames]
  decide

theorem word64?_integer (w : UInt64) : Readable.word64? (Toml.Value.integer w.toNat) = some w :=
  Readable.word64?_of_natural? rfl

theorem word32?_integer (w : UInt32) : Readable.word32? (Toml.Value.integer w.toNat) = some w :=
  Readable.word32?_of_natural? rfl

theorem config?_tables (c : Config) :
    Readable.config? (Toml.Value.table .declared (Section.tables c.sections)) = some c := by
  rw [Readable.config?_of_entries? rfl, Readable.interpreter?_of_entries? rfl,
    Readable.playback?_of_entries? rfl, Readable.stock?_of_entries? rfl]
  simp only [Plain.value, word64?_integer, word32?_integer]
  rfl

/-- A configuration that TOML can hold is read back from its text. -/
theorem ofToml?_document {c : Config} (h : c.Fits) :
    ofToml? (Section.document c.sections) = some c := by
  rw [ofToml?, Section.read?_document (sound_sections h) c.nodup_sections, Option.bind_some,
    config?_tables]

/-! ## Files -/

theorem fromUTF8?_toUTF8 (text : String) : String.fromUTF8? text.toUTF8 = some text :=
  dif_pos text.isValidUTF8

/-- A file that has been written is loaded from the text that was written. -/
theorem load_of_write {entries : List (String × Tree)} {p : Path} {f : Format} {text : String}
    {u : Tree} (hp : Format.ofPath p = .ok f)
    (h : (Tree.directory entries).write p text.toUTF8 = .ok u) :
    load (.ofTree u) p = do
      let c ← f.decode text
      c.check
      return c := by
  have htext : (Source.ofTree u).text p = .ok text := by
    simp only [Source.text, Source.ofTree, Tree.read_of_write h, fromUTF8?_toUTF8]
  rw [load, hp, htext]
  rfl

/-- A configuration is loaded exactly if it is decoded and good. -/
theorem load_eq_ok_iff {entries : List (String × Tree)} {p : Path} {f : Format} {text : String}
    {u : Tree} {c : Config} (hp : Format.ofPath p = .ok f)
    (h : (Tree.directory entries).write p text.toUTF8 = .ok u) :
    load (.ofTree u) p = .ok c ↔ f.decode text = .ok c ∧ c.check = .ok () := by
  rw [load_of_write hp h]
  cases hdecode : f.decode text with
  | error problem => exact iff_of_false (fun h ↦ by cases h) fun h ↦ by cases h.1
  | ok d =>
    rw [Except.ok.injEq]
    constructor
    · intro hload
      cases hcheck : d.check with
      | error problem =>
        simp [hcheck, bind, Except.bind] at hload
      | ok =>
        obtain rfl : d = c := by simpa [hcheck, bind, Except.bind, pure, Except.pure] using hload
        exact ⟨rfl, hcheck⟩
    · rintro ⟨rfl, hgood⟩
      simp [hgood, bind, Except.bind, pure, Except.pure]

/-- Saving to a file that can be written writes the text of the configuration. -/
theorem save_of_encode {c : Config} {t u : Tree} {p : Path} {f : Format} {text : String}
    (hgood : c.check = .ok ()) (hp : Format.ofPath p = .ok f) (htext : f.encode c = .ok text)
    (h : t.write p text.toUTF8 = .ok u) : c.save t p = .ok u := by
  simp only [save, hgood, hp, htext, h, bind, Except.bind, pure, Except.pure]

theorem decode_toJson {c d : Config} :
    Format.json.decode c.toJson = .ok d ↔ ofJson? c.toJson = some d := by
  rw [Format.decode]
  cases ofJson? c.toJson with
  | none => exact iff_of_false (fun h ↦ by cases h) fun h ↦ by cases h
  | some d => exact ⟨fun h ↦ congrArg some (Except.ok.inj h), fun h ↦ by cases h; rfl⟩

section Saved

variable {c : Config} (hgood : c.check = .ok ()) {entries : List (String × Tree)} {p : Path}
  (hwrite : ∀ bytes, ∃ u, (Tree.directory entries).write p bytes = .ok u)
include hgood

include hwrite in
theorem load_save_toml (hp : Format.ofPath p = .ok .toml) (hfits : c.Fits) :
    ∃ u, c.save (.directory entries) p = .ok u ∧ load (.ofTree u) p = .ok c := by
  have hencode : Format.toml.encode c = .ok (Section.document c.sections) := by
    rw [Format.encode, toToml?_eq, if_pos hfits]
    rfl
  obtain ⟨u, hu⟩ := hwrite (Section.document c.sections).toUTF8
  refine ⟨u, save_of_encode hgood hp hencode hu, (load_eq_ok_iff hp hu).2 ⟨?_, hgood⟩⟩
  rw [Format.decode, ofToml?_document hfits]
  rfl

theorem save_of_not_fits (hp : Format.ofPath p = .ok .toml) (hfits : ¬c.Fits) (t : Tree) :
    c.save t p = .error .unwritable := by
  have hencode : Format.toml.encode c = .error .unwritable := by
    rw [Format.encode, toToml?_eq, if_neg hfits]
    rfl
  simp only [save, hgood, hp, hencode, bind, Except.bind]

include hwrite in
theorem load_save_json (hp : Format.ofPath p = .ok .json) :
    ∃ u, c.save (.directory entries) p = .ok u ∧
      (load (.ofTree u) p = .ok c ↔ ∀ x ∈ c.reals, (Document.ofFloat x).real? = some x) ∧
      ∀ d, load (.ofTree u) p = .ok d → d.wholes = c.wholes := by
  obtain ⟨u, hu⟩ := hwrite c.toJson.toUTF8
  obtain ⟨hreals, hwholes⟩ := c.ofJson?_toJson
  refine ⟨u, save_of_encode hgood hp rfl hu, ?_, fun d hd ↦ ?_⟩
  · rw [load_eq_ok_iff hp hu, and_iff_left hgood, decode_toJson, hreals]
  · exact hwholes d (decode_toJson.1 ((load_eq_ok_iff hp hu).1 hd).1)

include hwrite in
/-- A good configuration saved to a file is what is loaded from there, unless a number that TOML
does not hold keeps it from being saved, or a real number does not survive its numeral in JSON. It
does where its digits and the power of ten they are multiplied by are values. -/
theorem load_save :
    (Format.ofPath p = .ok .toml →
      if c.Fits then
        ∃ u, c.save (.directory entries) p = .ok u ∧ load (.ofTree u) p = .ok c
      else c.save (.directory entries) p = .error .unwritable) ∧
    (Format.ofPath p = .ok .json →
      ∃ u, c.save (.directory entries) p = .ok u ∧
        (load (.ofTree u) p = .ok c ↔ ∀ x ∈ c.reals, (Document.ofFloat x).real? = some x) ∧
        ((∀ x ∈ c.reals, ∃ n ∈ Numeral.ofFloat? x, n.Exact) → load (.ofTree u) p = .ok c) ∧
        ∀ d, load (.ofTree u) p = .ok d → d.wholes = c.wholes) := by
  refine ⟨fun hp ↦ ?_, fun hp ↦ ?_⟩
  · split
    case isTrue hfits => exact load_save_toml hgood hwrite hp hfits
    case isFalse hfits => exact save_of_not_fits hgood hp hfits _
  · obtain ⟨u, hsave, hreals, hwholes⟩ := load_save_json hgood hwrite hp
    refine ⟨u, hsave, hreals, fun hexact ↦ hreals.2 fun x hx ↦ ?_, hwholes⟩
    obtain ⟨n, hn, hn'⟩ := hexact x hx
    exact Document.real?_ofFloat hn hn'

end Saved

/-- A directory without entries takes a file. -/
theorem write_json (bytes : ByteArray) :
    ∃ u, (Tree.directory []).write ⟨"config.json"⟩ bytes = .ok u := ⟨_, rfl⟩

theorem write_toml (bytes : ByteArray) :
    ∃ u, (Tree.directory []).write ⟨"config.toml"⟩ bytes = .ok u := ⟨_, rfl⟩

/-- Settings that differ from the defaults are kept in either format. -/
theorem load_save_changed :
    let c : Config := { playback := { speed := 42 }, stock := { toolRadius := 3 } }
    (∃ u, c.save (.directory []) ⟨"config.toml"⟩ = .ok u ∧
      load (.ofTree u) ⟨"config.toml"⟩ = .ok c) ∧
    ∃ u, c.save (.directory []) ⟨"config.json"⟩ = .ok u ∧
      load (.ofTree u) ⟨"config.json"⟩ = .ok c := by
  intro c
  have hgood : c.check = .ok () := by decide +kernel
  have hexact : ∀ x ∈ c.reals, ∃ n ∈ Numeral.ofFloat? x, n.Exact := by decide +kernel
  have htoml := (load_save hgood write_toml).1 rfl
  rw [if_pos (by decide)] at htoml
  obtain ⟨u, hsave, -, hload, -⟩ := (load_save hgood write_json).2 rfl
  exact ⟨htoml, u, hsave, hload hexact⟩

/-- A time between ticks that TOML does not hold. -/
def longTick : Config := { playback := { tick := 0x8000000000000000 } }

/-- A speed whose numeral is read as the value below it. -/
def fineSpeed : Config := { playback := { speed := 90.33333333333333 } }

/-- Good settings that cannot be saved in one format, and others that are changed in the other. -/
theorem not_kept_longTick_fineSpeed :
    (longTick.check = .ok () ∧
      longTick.save (.directory []) ⟨"config.toml"⟩ = .error .unwritable) ∧
    fineSpeed.check = .ok () ∧
      ∃ u, fineSpeed.save (.directory []) ⟨"config.json"⟩ = .ok u ∧
        load (.ofTree u) ⟨"config.json"⟩ ≠ .ok fineSpeed := by
  have hlong : longTick.check = .ok () := by decide +kernel
  have hfine : fineSpeed.check = .ok () := by decide +kernel
  have hreals : ¬∀ x ∈ fineSpeed.reals, (Document.ofFloat x).real? = some x := by decide +kernel
  refine ⟨⟨hlong, save_of_not_fits hlong rfl (by decide) _⟩, hfine, ?_⟩
  obtain ⟨u, hsave, hload, -⟩ := load_save_json hfine write_json rfl
  exact ⟨u, hsave, mt hload.1 hreals⟩

end Config

end Toolpath.Settings
