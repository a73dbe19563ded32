import VpnNode.Config.File
import VpnNode.Proofs.Config.Form
import VpnNode.Proofs.Text.Utf8
import VpnNode.Simulation.Files

/-!
# Configuration files round trip

A configuration has a text if its whole numbers fit into 64 bits with a sign, and it is parsed
from that text, whatever its other settings are. So a file that has been saved is loaded as the
configuration that was saved, on every disk that keeps what is written.

Main statements:

* `render_eq_ok_iff`: which configurations have a text.
* `parse_render`: a configuration is parsed from its text.
* `file_round_trip`: it is loaded from the file in which it has been saved.
-/

namespace VpnNode

namespace Config

/-! ## Texts -/

/-- The whole numbers among the settings. -/
def wholeNumbers (c : Config) : List Nat :=
  c.node.intervals.toList.map UInt64.toNat ++
    [c.query.maxRetries.toNat, c.query.retryDelay.toNat, c.query.timeout.toNat,
      c.query.probeTimeout.toNat, c.tx.gas.toNat, c.tx.broadcastRetries.toNat,
      c.tx.broadcastDelay.toNat, c.tx.confirmRetries.toNat, c.tx.confirmDelay.toNat,
      c.service.maxPeers.toNat]

/-- All of them fit into 64 bits with a sign. -/
def FitsSigned (c : Config) : Prop := ∀ n ∈ c.wholeNumbers, (n : Int) ≤ Int64.maxValue.toInt

namespace Field

/-- Can the value of a setting be written? -/
def Fits (f : Field σ) (s : σ) : Prop := ∀ e ∈ f.entry s, e.isWritable = true

theorem isWritable_integer_iff {n : Nat} :
    (Toml.Entry.integer n).isWritable = true ↔ (n : Int) ≤ Int64.maxValue.toInt := by
  have hminimum : Int64.minValue.toInt ≤ 0 := by decide
  simp only [Toml.Entry.isWritable, Toml.isWritable, Bool.and_eq_true, decide_eq_true_eq,
    and_iff_right_iff_imp]
  omega

/-- Half the bits always fit. -/
theorem toNat_le_maxValue (n : UInt32) : (n.toNat : Int) ≤ Int64.maxValue.toInt := by
  have hless := UInt32.toNat_lt n
  have hlimit : Int64.maxValue.toInt = 9223372036854775807 := rfl
  omega

section Kinds

variable {key : String} {s : σ}

theorem fits_text {get : σ → String} {set : String → σ → σ} : (text key get set).Fits s := by
  rintro e ⟨⟩
  rfl

theorem fits_optionalText {get : σ → Option String} {set : Option String → σ → σ} :
    (optionalText key get set).Fits s := by
  intro e he
  obtain ⟨a, -, rfl⟩ := Option.map_eq_some_iff.1 he
  rfl

theorem fits_uint64_iff {get : σ → UInt64} {set : UInt64 → σ → σ} :
    (uint64 key get set).Fits s ↔ ((get s).toNat : Int) ≤ Int64.maxValue.toInt := by
  rw [← isWritable_integer_iff]
  exact ⟨fun h => h _ rfl, by rintro h e ⟨⟩; exact h⟩

theorem fits_uint32 {get : σ → UInt32} {set : UInt32 → σ → σ} : (uint32 key get set).Fits s := by
  rintro e ⟨⟩
  exact isWritable_integer_iff.2 (toNat_le_maxValue (get s))

theorem fits_real {get : σ → Binary64} {set : Binary64 → σ → σ} : (real key get set).Fits s := by
  rintro e ⟨⟩
  rfl

theorem fits_flag {get : σ → Bool} {set : Bool → σ → σ} : (flag key get set).Fits s := by
  rintro e ⟨⟩
  rfl

theorem fits_texts {get : σ → List String} {set : List String → σ → σ} :
    (texts key get set).Fits s := by
  rintro e ⟨⟩
  rfl

end Kinds

theorem all_isWritable_lines_iff {fields : List (Field σ)} {s : σ} :
    (lines fields s).all (fun l => l.2.isWritable) = true ↔ ∀ f ∈ fields, f.Fits s := by
  rw [List.all_eq_true]
  constructor
  · exact fun h f hf e he => h (f.key, e) (mem_lines_iff.2 ⟨f, hf, he, rfl⟩)
  · intro h l hl
    obtain ⟨f, hf, he, -⟩ := mem_lines_iff.1 hl
    exact h f hf l.2 he

end Field

open VpnNode.Config.Field (fits_text fits_optionalText fits_uint64_iff fits_uint32 fits_real
  fits_flag fits_texts toNat_le_maxValue all_isWritable_lines_iff)

theorem isWritable_sheet_iff (c : Config) : c.sheet.isWritable = true ↔ c.FitsSigned := by
  have hsheet : c.sheet.isWritable = true ↔
      ∀ p ∈ parts, (p.lines c).all (fun l => l.2.isWritable) = true := by
    rw [Toml.Sheet.isWritable, sheet, List.all_map, List.all_eq_true]
    rfl
  rw [hsheet]
  simp only [parts, Part.of, List.forall_mem_cons, all_isWritable_lines_iff]
  simp [NodeSection.fields, QuerySection.fields, TxSection.fields, ServiceSection.fields,
    LogSection.fields, fits_text, fits_optionalText, fits_uint64_iff, fits_uint32, fits_real,
    fits_flag, fits_texts, FitsSigned, wholeNumbers, Intervals.toList, toNat_le_maxValue, and_assoc]

/-- Exactly the configurations whose whole numbers fit have a text. -/
theorem render_eq_ok_iff {c : Config} {text : String} :
    c.render = .ok text ↔ c.FitsSigned ∧ text = String.ofList c.sheet.write := by
  rw [← isWritable_sheet_iff]
  unfold render
  by_cases h : c.sheet.isWritable = true
  · rw [if_pos h, Except.ok.injEq, and_iff_right h, eq_comm]
  · rw [if_neg h]
    simp [h]

/-- A configuration is parsed from its text. -/
theorem parse_render {c : Config} {text : String} (h : c.render = .ok text) :
    parse text = .ok c := by
  obtain ⟨hfit, rfl⟩ := render_eq_ok_iff.1 h
  unfold parse
  rw [Toml.Sheet.ofText?_write (wellFormed_sheet c) ((isWritable_sheet_iff c).2 hfit),
    Option.bind_some, ofMembers?_sheet]

/-- Only a number that is no number makes a configuration disagree with itself. -/
theorem agrees_self_iff {c : Config} : c.agrees c = true ↔ c.tx.gasAdjustment ≠ .nan := by
  unfold agrees
  rw [decide_eq_true rfl, Bool.and_true]
  cases c.tx.gasAdjustment <;> simp [Binary64.equals]

end Config

/-! ## Files -/

/-- A disk keeps what is written: it can be read at once. -/
def Disk.Keeps (d : Disk (StateM σ)) : Prop :=
  ∀ path bs s s', (d.write path bs).run s = (.ok (), s') → (d.read path).run s' = (.ok bs, s')

/-- Files in memory are kept. -/
theorem Simulation.Files.keeps_disk : Files.disk.Keeps := by
  intro path bs fs fs' h
  have hwrite : (Files.disk.write path bs).run fs = change (fun fs => fs.write path bs) fs := rfl
  have hread : (Files.disk.read path).run fs' = (fs'.read path, fs') := rfl
  rw [hwrite, change] at h
  cases hresult : fs.write path bs with
  | error e =>
    rw [hresult] at h
    exact absurd (Prod.mk.inj h).1 (by simp)
  | ok fs'' =>
    rw [hresult] at h
    obtain rfl : fs'' = fs' := (Prod.mk.inj h).2
    rw [hread, read_write hresult]

namespace Config

variable {σ : Type} {d : Disk (StateM σ)} {c : Config} {text : String} {path : String} {s s' : σ}

theorem run_save (h : c.render = .ok text) : (save d c path).run s =
    match (makeRoom d path).run s with
    | (.error e, s₁) => (.error (.io e.message), s₁)
    | (.ok (), s₁) =>
      (((d.write path (Utf8.octets text)).run s₁).1.mapError fun e => .io e.message,
        ((d.write path (Utf8.octets text)).run s₁).2) := by
  unfold save
  rw [StateT.run_bind]
  generalize (makeRoom d path).run s = made
  obtain ⟨room, s₁⟩ := made
  cases room with
  | error e => rfl
  | ok u =>
    dsimp only
    rw [h]
    rfl

/-- A configuration with a text is saved exactly if the disk has made room and written it. -/
theorem save_eq_ok_iff (h : c.render = .ok text) :
    (save d c path).run s = (.ok (), s') ↔ ∃ s₁, (makeRoom d path).run s = (.ok (), s₁) ∧
      (d.write path (Utf8.octets text)).run s₁ = (.ok (), s') := by
  rw [run_save h]
  generalize (makeRoom d path).run s = made
  obtain ⟨room, s₁⟩ := made
  cases room with
  | error e =>
    constructor
    · exact fun heq => absurd (Prod.mk.inj heq).1 (by simp)
    · rintro ⟨s₁, heq, -⟩
      exact absurd (Prod.mk.inj heq).1 (by simp)
  | ok u =>
    dsimp only
    constructor
    · intro heq
      refine ⟨s₁, rfl, ?_⟩
      generalize (d.write path (Utf8.octets text)).run s₁ = written at heq ⊢
      obtain ⟨result, s₂⟩ := written
      obtain ⟨hresult, rfl⟩ := Prod.mk.inj heq
      cases result with
      | error e => exact absurd hresult (by simp [Except.mapError])
      | ok u => rfl
    · rintro ⟨s₂, heq, hwrite⟩
      obtain rfl := (Prod.mk.inj heq).2
      rw [hwrite]
      rfl

theorem run_load {bs : List UInt8} (h : (d.read path).run s = (.ok bs, s')) :
    (load d path).run s = (ofOctets bs, s') := by
  unfold load
  rw [StateT.run_bind, h]
  rfl

/-- A file is loaded as the configuration that has been saved in it. -/
theorem load_of_save (hd : d.Keeps) (hrender : c.render = .ok text)
    (h : (save d c path).run s = (.ok (), s')) : (load d path).run s' = (.ok c, s') := by
  obtain ⟨s₁, -, hwrite⟩ := (save_eq_ok_iff hrender).1 h
  rw [run_load (hd _ _ _ _ hwrite), ofOctets, Utf8.decode?_octets]
  dsimp only
  rw [parse_render hrender]

/-- A configuration whose whole numbers fit and whose gas adjustment is a number has a text, is
    parsed from it, and agrees with what is parsed. It is saved exactly if the disk makes room for it
    and writes it, and is then loaded from the same path. -/
theorem file_round_trip (hd : d.Keeps) (hfit : c.FitsSigned) (hreal : c.tx.gasAdjustment ≠ .nan) :
    ∃ text, c.render = .ok text ∧ parse text = .ok c ∧ c.agrees c = true ∧
      ∀ path s s',
        ((save d c path).run s = (.ok (), s') ↔ ∃ s₁, (makeRoom d path).run s = (.ok (), s₁) ∧
          (d.write path (Utf8.octets text)).run s₁ = (.ok (), s')) ∧
        ((save d c path).run s = (.ok (), s') → (load d path).run s' = (.ok c, s')) := by
  have hrender : c.render = .ok (String.ofList c.sheet.write) := render_eq_ok_iff.2 ⟨hfit, rfl⟩
  exact ⟨_, hrender, parse_render hrender, agrees_self_iff.2 hreal,
    fun path s s' => ⟨save_eq_ok_iff hrender, load_of_save hd hrender⟩⟩

/-- A configuration with texts that need every kind of care. -/
def unusual : Config where
  node := { moniker := "a \"quoted\" \\ \x07 name", remoteUrl := "'\"", listenOn := "é\r\n\t" }
  query := { rpcAddresses := [] }
  tx := { feeGranter := some "", gasAdjustment := .signedZero true }

theorem file_round_trip_unusual : ∃ fs,
    (save Simulation.Files.disk unusual "node/config.toml").run {} = (.ok (), fs) ∧
      (load Simulation.Files.disk "node/config.toml").run fs = (.ok unusual, fs) := by
  have hfit : unusual.FitsSigned := by
    unfold FitsSigned
    decide
  obtain ⟨text, -, -, -, hfile⟩ := file_round_trip Simulation.Files.keeps_disk hfit (by decide)
  have hsave := (hfile "node/config.toml" {} _).1.2 ⟨_, rfl, rfl⟩
  exact ⟨_, hsave, (hfile _ _ _).2 hsave⟩

end Config

end VpnNode
