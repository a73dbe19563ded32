import VpnNode.Config.Form
import VpnNode.Proofs.Toml.Sheet

/-!
# Settings are read back

A setting is read back from its own line, and a section from its lines: no two settings have one
key, so that each finds its line, and a setting without a line keeps its default.

Main statements:

* `Field.readMembers_lines`: reading the lines of a section restores one setting after the other.
* `ofMembers?_sheet`: a configuration is read back from the members of its sheet.
-/

namespace VpnNode.Config

open Toml (Entry)

theorem foldlM_congr {f g : β → α → Option β} {l : List α} (h : ∀ a ∈ l, ∀ b, f b a = g b a)
    (b : β) : l.foldlM f b = l.foldlM g b := by
  induction l generalizing b with
  | nil => rfl
  | cons a l ih =>
    obtain ⟨ha, hl⟩ := List.forall_mem_cons.1 h
    rw [List.foldlM_cons, List.foldlM_cons, ha]
    exact congrArg _ (funext (ih hl))

namespace Field

/-- What reading the line of a setting of one section makes of another. -/
def restore (f : Field σ) (s acc : σ) : Option σ :=
  match f.entry s with
  | some e => f.read e.toValue acc
  | none => some acc

/-! ## Kinds of settings -/

variable {key : String} {s acc : σ}

/-- A setting is restored if its value is read back from what is written for it. -/
theorem restore_of {read : Toml.Value → Option α} {entry : α → Option Entry} {get : σ → α}
    {set : α → σ → σ} {e : Entry} (hentry : entry (get s) = some e)
    (hread : read e.toValue = some (get s)) :
    (of key read entry get set).restore s acc = some (set (get s) acc) := by
  have hrestore : (of key read entry get set).restore s acc =
      match entry (get s) with
      | some e => (read e.toValue).map fun a => set a acc
      | none => some acc := rfl
  rw [hrestore, hentry]
  dsimp only
  rw [hread]
  rfl

theorem restore_text {get : σ → String} {set : String → σ → σ} :
    (text key get set).restore s acc = some (set (get s) acc) :=
  restore_of rfl (readText_toValue (get s))

/-- A text that is left out keeps its default. -/
theorem restore_optionalText {get : σ → Option String} {set : Option String → σ → σ} :
    (optionalText key get set).restore s acc =
      some (if (get s).isSome then set (get s) acc else acc) := by
  cases hget : get s with
  | none =>
    unfold restore optionalText of
    dsimp only
    rw [hget]
    rfl
  | some a =>
    rw [optionalText, restore_of (e := .text a)]
    · rw [hget]
      rfl
    · rw [hget]
      rfl
    · rw [hget]
      rfl

theorem restore_uint64 {get : σ → UInt64} {set : UInt64 → σ → σ} :
    (uint64 key get set).restore s acc = some (set (get s) acc) := by
  refine restore_of rfl ?_
  rw [readNat_toValue (UInt64.toNat_lt (get s)), Option.map_some, UInt64.ofNat_toNat]

theorem restore_uint32 {get : σ → UInt32} {set : UInt32 → σ → σ} :
    (uint32 key get set).restore s acc = some (set (get s) acc) := by
  refine restore_of rfl ?_
  rw [readNat_toValue (UInt32.toNat_lt (get s)), Option.map_some, UInt32.ofNat_toNat]

theorem restore_real {get : σ → Binary64} {set : Binary64 → σ → σ} :
    (real key get set).restore s acc = some (set (get s) acc) :=
  restore_of rfl rfl

theorem restore_flag {get : σ → Bool} {set : Bool → σ → σ} :
    (flag key get set).restore s acc = some (set (get s) acc) :=
  restore_of rfl rfl

theorem restore_texts {get : σ → List String} {set : List String → σ → σ} :
    (texts key get set).restore s acc = some (set (get s) acc) :=
  restore_of rfl (readTexts_toValue (get s))

/-! ## Sections -/

theorem mem_lines_iff {fields : List (Field σ)} {s : σ} {l : String × Entry} :
    l ∈ lines fields s ↔ ∃ f ∈ fields, f.entry s = some l.2 ∧ f.key = l.1 := by
  unfold lines
  rw [List.mem_filterMap]
  constructor
  · rintro ⟨f, hf, hline⟩
    obtain ⟨e, he, rfl⟩ := Option.map_eq_some_iff.1 hline
    exact ⟨f, hf, he, rfl⟩
  · rintro ⟨f, hf, he, hkey⟩
    refine ⟨f, hf, ?_⟩
    rw [he, hkey]
    rfl

/-- No key is written twice, if no two settings share one. -/
theorem nodup_keys_lines {fields : List (Field σ)} (h : (fields.map Field.key).Nodup) (s : σ) :
    ((lines fields s).map Prod.fst).Nodup := by
  refine h.sublist ?_
  unfold lines
  induction fields with
  | nil => exact List.Sublist.refl _
  | cons f fields ih =>
    have hrest := ih (List.nodup_cons.1 h).2
    rw [List.filterMap_cons]
    cases f.entry s with
    | none => exact hrest.cons _
    | some e => exact hrest.cons_cons _

/-- A setting finds its own line. -/
theorem lookup_lines {fields : List (Field σ)} (h : (fields.map Field.key).Nodup) {f : Field σ}
    (hf : f ∈ fields) (s : σ) :
    (Toml.Sheet.sectionMembers (lines fields s)).lookup f.key =
      (f.entry s).map Toml.Entry.toValue := by
  have hkeys : (Toml.Sheet.sectionMembers (lines fields s)).map Prod.fst =
      (lines fields s).map Prod.fst := by
    rw [Toml.Sheet.sectionMembers, List.map_map]
    rfl
  cases he : f.entry s with
  | some e =>
    have hmem : (f.key, e.toValue) ∈ Toml.Sheet.sectionMembers (lines fields s) :=
      List.mem_map.2 ⟨(f.key, e), mem_lines_iff.2 ⟨f, hf, he, rfl⟩, rfl⟩
    exact Toml.Members.lookup_of_mem (hkeys ▸ nodup_keys_lines h s) hmem
  | none =>
    refine Toml.Members.lookup_eq_none ?_
    rw [hkeys]
    intro hmem
    obtain ⟨l, hl, hkey⟩ := List.mem_map.1 hmem
    obtain ⟨f', hf', he', hkey'⟩ := mem_lines_iff.1 hl
    obtain rfl := List.inj_on_of_nodup_map h hf' hf (hkey'.trans hkey)
    rw [he] at he'
    exact absurd he'.symm (Option.some_ne_none _)

/-- Reading the lines of a section restores one setting after the other. -/
theorem readMembers_lines {fields : List (Field σ)} (h : (fields.map Field.key).Nodup) (s acc : σ) :
    readMembers fields (Toml.Sheet.sectionMembers (lines fields s)) acc =
      fields.foldlM (fun acc f => f.restore s acc) acc := by
  refine foldlM_congr (fun f hf acc => ?_) acc
  rw [lookup_lines h hf]
  unfold restore
  cases f.entry s <;> rfl

end Field

/-! ## The sections of a configuration -/

/-- The settings of a section have keys of their own, and are all restored over the defaults. -/
structure ReadsBack (fields : List (Field σ)) (initial : σ) : Prop where
  nodup_keys : (fields.map Field.key).Nodup
  isBare : ∀ key ∈ fields.map Field.key, Toml.Statement.IsBare key
  restores : ∀ s, fields.foldlM (fun acc f => f.restore s acc) initial = some s

open VpnNode.Config.Field (restore_text restore_optionalText restore_uint64 restore_uint32
  restore_real restore_flag restore_texts)

theorem readsBack_node : ReadsBack NodeSection.fields {} := by
  refine ⟨by decide, by decide, fun s => ?_⟩
  simp only [NodeSection.fields, List.foldlM_cons, List.foldlM_nil, restore_text, restore_uint64,
    Option.bind_eq_bind, Option.bind_some]
  rfl

theorem readsBack_query : ReadsBack QuerySection.fields {} := by
  refine ⟨by decide, by decide, fun s => ?_⟩
  simp only [QuerySection.fields, List.foldlM_cons, List.foldlM_nil, restore_texts, restore_uint64,
    restore_uint32, Option.bind_eq_bind, Option.bind_some]
  rfl

theorem readsBack_tx : ReadsBack TxSection.fields {} := by
  refine ⟨by decide, by decide, fun s => ?_⟩
  simp only [TxSection.fields, List.foldlM_cons, List.foldlM_nil, restore_text,
    restore_optionalText, restore_uint64, restore_uint32, restore_real, restore_flag,
    Option.bind_eq_bind, Option.bind_some]
  obtain ⟨_, _, _, feeGranter, _, _, _, _, _, _, _, _⟩ := s
  cases feeGranter with
  | none => rfl
  | some a => rfl

theorem readsBack_service : ReadsBack ServiceSection.fields {} := by
  refine ⟨by decide, by decide, fun s => ?_⟩
  simp only [ServiceSection.fields, List.foldlM_cons, List.foldlM_nil, restore_text, restore_uint64,
    Option.bind_eq_bind, Option.bind_some]
  rfl

theorem readsBack_log : ReadsBack LogSection.fields {} := ⟨by decide, by decide, fun _ => rfl⟩

/-- A section is put in its place from its lines. -/
theorem read_lines {fields : List (Field σ)} {initial : σ} (h : ReadsBack fields initial)
    (name : String) (get : Config → σ) (set : σ → Config → Config) (c acc : Config) :
    (Part.of name fields initial get set).read (.table .header
      (Toml.Sheet.sectionMembers ((Part.of name fields initial get set).lines c))) acc =
        some (set (get c) acc) := by
  have hread : Field.readSection fields initial
      (.table .header (Toml.Sheet.sectionMembers (Field.lines fields (get c)))) = some (get c) :=
    (Field.readMembers_lines h.nodup_keys (get c) initial).trans (h.restores (get c))
  show (Field.readSection fields initial _).map _ = _
  rw [Part.of, hread]
  rfl

/-- The keys of a section can be written, whatever its settings are. -/
def Part.HasBareKeys (p : Part) : Prop :=
  ∀ c, ((p.lines c).map Prod.fst).Nodup ∧ ∀ l ∈ p.lines c, Toml.Statement.IsBare l.1

theorem hasBareKeys_of {fields : List (Field σ)} {initial : σ} (h : ReadsBack fields initial)
    (name : String) (get : Config → σ) (set : σ → Config → Config) :
    (Part.of name fields initial get set).HasBareKeys := by
  refine fun c => ⟨Field.nodup_keys_lines h.nodup_keys (get c), fun l hl => ?_⟩
  obtain ⟨f, hf, -, hkey⟩ := Field.mem_lines_iff.1 hl
  exact hkey ▸ h.isBare f.key (List.mem_map_of_mem hf)

theorem hasBareKeys_parts : ∀ p ∈ parts, p.HasBareKeys := by
  simp only [parts, List.forall_mem_cons]
  exact ⟨hasBareKeys_of readsBack_node _ _ _, hasBareKeys_of readsBack_query _ _ _,
    hasBareKeys_of readsBack_tx _ _ _, hasBareKeys_of readsBack_service _ _ _,
    hasBareKeys_of readsBack_log _ _ _, fun _ h => absurd h List.not_mem_nil⟩

theorem nodup_names : (parts.map Part.name).Nodup := by decide

/-- The sheet of a configuration can be written and read. -/
theorem wellFormed_sheet (c : Config) : Toml.Sheet.WellFormed c.sheet := by
  have hnames : c.sheet.map Prod.fst = parts.map Part.name := by
    rw [sheet, List.map_map]
    rfl
  have hbare : ∀ name ∈ parts.map Part.name, Toml.Statement.IsBare name := by decide
  refine ⟨fun s hs => ?_, fun s hs => ?_, hnames ▸ nodup_names, fun s hs => ?_⟩
  · exact hbare s.1 (hnames ▸ List.mem_map_of_mem hs)
  · obtain ⟨p, hp, rfl⟩ := List.mem_map.1 hs
    exact (hasBareKeys_parts p hp c).2
  · obtain ⟨p, hp, rfl⟩ := List.mem_map.1 hs
    exact (hasBareKeys_parts p hp c).1

/-- A configuration is read back from the members of its sheet. -/
theorem ofMembers?_sheet (c : Config) : ofMembers? (Toml.Sheet.members c.sheet) = some c := by
  have hstep : ofMembers? (Toml.Sheet.members c.sheet) = parts.foldlM (fun acc p =>
      p.read (.table .header (Toml.Sheet.sectionMembers (p.lines c))) acc) {} := by
    unfold ofMembers?
    refine foldlM_congr (fun p hp acc => ?_) _
    have hnames : (Toml.Sheet.members c.sheet).map Prod.fst = parts.map Part.name := by
      rw [Toml.Sheet.members, sheet, List.map_map, List.map_map]
      rfl
    have hmem : (p.name, .table .header (Toml.Sheet.sectionMembers (p.lines c))) ∈
        Toml.Sheet.members c.sheet :=
      List.mem_map.2 ⟨(p.name, p.lines c), List.mem_map.2 ⟨p, hp, rfl⟩, rfl⟩
    rw [Toml.Members.lookup_of_mem (hnames ▸ nodup_names) hmem]
  rw [hstep]
  simp only [parts, List.foldlM_cons, List.foldlM_nil, read_lines readsBack_node,
    read_lines readsBack_query, read_lines readsBack_tx, read_lines readsBack_service,
    read_lines readsBack_log, Option.bind_eq_bind, Option.bind_some]
  rfl

end VpnNode.Config
