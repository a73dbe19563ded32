import VpnNode.Proofs.Config.Check
import VpnNode.Proofs.Config.Form

/-!
# The numbers that a checked configuration runs with

The check refuses a whole number that is zero and a gas adjustment that is zero or below. That
makes every whole number positive, but not the gas adjustment: what TOML writes as `nan` is
neither zero or below nor above it, and passes. So the gas adjustment of a checked
configuration is positive exactly if the text does not give it that value; and as a setting
comes from its own entry in its own section and from nothing else, that can be told from this
one entry.

Main statements:

* `Field.readSection_one`: a setting is what its section gives for it, or its default.
* `gasAdjustment_eq_nan_iff`: when the gas adjustment is no number.
* `checked_tuning`: the numbers of a configuration that has been parsed and checked.
* `check_passes_nan`: a text whose gas adjustment passes the check without being positive.
-/

namespace VpnNode.Config

variable {σ α β : Type}

/-! ## One setting among many -/

/-- Does an operation leave alone what `get` looks at? -/
def Leaves (get : σ → α) (change : σ → Option σ) : Prop := ∀ s s', change s = some s' → get s' = get s

theorem leaves_foldlM {get : σ → α} {step : σ → β → Option σ} {bs : List β}
    (h : ∀ b ∈ bs, Leaves get fun s => step s b) : Leaves get fun s => bs.foldlM step s := by
  induction bs with
  | nil =>
    rintro s s' ⟨⟩
    rfl
  | cons b bs ih =>
    obtain ⟨hb, hbs⟩ := List.forall_mem_cons.1 h
    intro s s' hread
    obtain ⟨s₁, hfirst, hrest⟩ := Option.bind_eq_some_iff.1 hread
    exact (ih hbs s₁ s' hrest).trans (hb s s₁ hfirst)

/-- Where only one step touches what `get` looks at, that step alone decides about it. -/
theorem foldlM_one {get : σ → α} {step : σ → β → Option σ} {before after : List β} {b : β}
    (hbefore : ∀ a ∈ before, Leaves get fun s => step s a)
    (hafter : ∀ a ∈ after, Leaves get fun s => step s a) {s s' : σ}
    (h : (before ++ b :: after).foldlM step s = some s') :
    ∃ s₁ s₂, get s₁ = get s ∧ step s₁ b = some s₂ ∧ get s' = get s₂ := by
  rw [List.foldlM_append] at h
  obtain ⟨s₁, hfront, h⟩ := Option.bind_eq_some_iff.1 h
  obtain ⟨s₂, hstep, hback⟩ := Option.bind_eq_some_iff.1 h
  exact ⟨s₁, s₂, leaves_foldlM hbefore s s₁ hfront, hstep, leaves_foldlM hafter s₂ s' hback⟩

/-- What is passed over where it is missing, and leaves things alone where it is there. -/
theorem leaves_lookup {get : σ → α} {read : Toml.Value → σ → Option σ}
    (h : ∀ v, Leaves get (read v)) (given : Option Toml.Value) : Leaves get fun s =>
      match given with
      | some v => read v s
      | none => some s := by
  intro s s' hstep
  cases given with
  | some v => exact h v s s' hstep
  | none =>
    cases hstep
    rfl

/-- A setting has the value that is given for it, or what it had. -/
def Follows (get : σ → α) (read : Toml.Value → Option α) (s s' : σ) : Option Toml.Value → Prop
  | some v => read v = some (get s')
  | none => get s' = get s

/-- Where things are read by their names, one alone decides about what the others leave alone. -/
theorem foldlM_lookup_one {get : σ → α} {readα : Toml.Value → Option α} {name : β → String}
    {read : β → Toml.Value → σ → Option σ} {before after : List β} {b : β}
    (hbefore : ∀ a ∈ before, ∀ v, Leaves get (read a v))
    (hafter : ∀ a ∈ after, ∀ v, Leaves get (read a v))
    (hread : ∀ v s s', read b v s = some s' → readα v = some (get s')) {ms : Toml.Members}
    {s s' : σ} (h : (before ++ b :: after).foldlM (fun s a =>
      match ms.lookup (name a) with
      | some v => read a v s
      | none => some s) s = some s') :
    Follows get readα s s' (ms.lookup (name b)) := by
  obtain ⟨s₁, s₂, hfront, hstep, hback⟩ :=
    foldlM_one (fun a ha => leaves_lookup (hbefore a ha) (ms.lookup (name a)))
      (fun a ha => leaves_lookup (hafter a ha) (ms.lookup (name a))) h
  cases hv : ms.lookup (name b) with
  | some v =>
    rw [hv] at hstep
    rw [Follows, hback]
    exact hread v s₁ s₂ hstep
  | none =>
    rw [hv] at hstep
    cases hstep
    exact hback.trans hfront

namespace Field

/-- Does a setting leave alone what `get` looks at, whatever its value is? -/
def Spares (f : Field σ) (get : σ → α) : Prop := ∀ v, Leaves get (f.read v)

theorem spares_of {key : String} {read : Toml.Value → Option β} {entry : β → Option Toml.Entry}
    {getβ : σ → β} {set : β → σ → σ} {get : σ → α} (h : ∀ b s, get (set b s) = get s) :
    (of key read entry getβ set).Spares get := by
  intro v s s' hread
  obtain ⟨b, -, rfl⟩ := Option.map_eq_some_iff.1 hread
  exact h b s

/-- What a section gives for a setting: the member under its key or the item in its place. -/
def given (key : String) (place : Nat) : Toml.Value → Option Toml.Value
  | .table _ ms => Toml.Members.lookup ms key
  | .array vs => vs[place]?
  | .tables ts => (ts.map (Toml.Value.table .header))[place]?
  | _ => none

variable {get : σ → α} {read : Toml.Value → Option α} {before after : List (Field σ)} {f : Field σ}
  {s s' : σ}

theorem zip_append_cons {before after : List α} {a : α} {bs : List β}
    (h : before.length < bs.length) :
    (before ++ a :: after).zip bs = before.zip (bs.take before.length) ++
      (a, bs[before.length]) :: after.zip (bs.drop (before.length + 1)) := by
  have hbs : bs = bs.take before.length ++ bs[before.length] :: bs.drop (before.length + 1) := by
    rw [List.getElem_cons_drop, List.take_append_drop]
  conv_lhs => rw [hbs]
  rw [List.zip_append (List.length_take_of_le h.le).symm, List.zip_cons_cons]

theorem zip_append_of_length_le {before after : List α} {bs : List β}
    (h : bs.length ≤ before.length) : (before ++ after).zip bs = before.zip bs := by
  have hmin : min (before ++ after).length bs.length = bs.length := by
    rw [List.length_append]
    omega
  conv_rhs => rw [List.zip_eq_zip_take_min, Nat.min_eq_right h]
  rw [List.zip_eq_zip_take_min, hmin, List.take_append_of_le_length h]

theorem readItems_one (hbefore : ∀ g ∈ before, g.Spares get) (hafter : ∀ g ∈ after, g.Spares get)
    (hread : ∀ v s s', f.read v s = some s' → read v = some (get s')) {vs : List Toml.Value}
    (h : readItems (before ++ f :: after) vs s = some s') :
    Follows get read s s' vs[before.length]? := by
  have hspares : ∀ {fields : List (Field σ)} {vs : List Toml.Value},
      (∀ g ∈ fields, g.Spares get) → ∀ p ∈ fields.zip vs, Leaves get fun s => p.1.read p.2 s :=
    fun hfields p hp => hfields p.1 (List.of_mem_zip hp).1 p.2
  unfold readItems at h
  cases hv : vs[before.length]? with
  | some v =>
    obtain ⟨hlength, rfl⟩ := List.getElem?_eq_some_iff.1 hv
    rw [zip_append_cons hlength] at h
    obtain ⟨s₁, s₂, -, hstep, hback⟩ := foldlM_one (hspares hbefore) (hspares hafter) h
    rw [Follows, hback]
    exact hread _ s₁ s₂ hstep
  | none =>
    have hshort : vs.length ≤ before.length := List.getElem?_eq_none_iff.1 hv
    rw [zip_append_of_length_le hshort] at h
    exact leaves_foldlM (hspares hbefore) s s' h

/-- A setting is what its section gives for it, or its default. -/
theorem readSection_one (hbefore : ∀ g ∈ before, g.Spares get) (hafter : ∀ g ∈ after, g.Spares get)
    (hread : ∀ v s s', f.read v s = some s' → read v = some (get s')) {v : Toml.Value}
    (h : readSection (before ++ f :: after) s v = some s') :
    Follows get read s s' (given f.key before.length v) := by
  cases v with
  | table _ ms => exact foldlM_lookup_one hbefore hafter hread h
  | array vs => exact readItems_one hbefore hafter hread h
  | tables ts => exact readItems_one hbefore hafter hread h
  | moment _ =>
    cases h
    rfl
  | text _ => cases h
  | integer _ => cases h
  | real _ => cases h
  | flag _ => cases h

end Field

/-! ## The gas adjustment -/

/-- What a text gives for the gas adjustment. -/
def givenGasAdjustment (ms : Toml.Members) : Option Toml.Value :=
  (ms.lookup "tx").bind (Field.given "gas_adjustment" 5)

open VpnNode.Config.Field (spares_of)

theorem gasAdjustment_of_readSection {v : Toml.Value} {t : TxSection}
    (h : Field.readSection TxSection.fields {} v = some t) :
    Follows TxSection.gasAdjustment Field.readReal {} t
      (Field.given "gas_adjustment" 5 v) := by
  have hbefore : ∀ g ∈ TxSection.fields.take 5, g.Spares TxSection.gasAdjustment := by
    simp only [TxSection.fields, List.take_succ_cons, List.take_zero, List.forall_mem_cons]
    exact ⟨spares_of fun _ _ => rfl, spares_of fun _ _ => rfl, spares_of fun _ _ => rfl,
      spares_of fun _ _ => rfl, spares_of fun _ _ => rfl, fun _ h => absurd h List.not_mem_nil⟩
  have hafter : ∀ g ∈ TxSection.fields.drop 6, g.Spares TxSection.gasAdjustment := by
    simp only [TxSection.fields, List.drop_succ_cons, List.drop_zero, List.forall_mem_cons]
    exact ⟨spares_of fun _ _ => rfl, spares_of fun _ _ => rfl, spares_of fun _ _ => rfl,
      spares_of fun _ _ => rfl, spares_of fun _ _ => rfl, spares_of fun _ _ => rfl,
      fun _ h => absurd h List.not_mem_nil⟩
  refine Field.readSection_one hbefore hafter ?_ h
  intro w s s' hread
  obtain ⟨x, hx, rfl⟩ := Option.map_eq_some_iff.1 hread
  exact hx

/-- Does a section leave alone what `get` looks at, whatever its settings are? -/
def Part.Spares (p : Part) (get : Config → α) : Prop := ∀ v, Leaves get (p.read v)

theorem Part.spares_of {name : String} {fields : List (Field σ)} {initial : σ} {getσ : Config → σ}
    {set : σ → Config → Config} {get : Config → α} (h : ∀ s c, get (set s c) = get c) :
    (Part.of name fields initial getσ set).Spares get := by
  intro v c c' hread
  obtain ⟨s, -, rfl⟩ := Option.map_eq_some_iff.1 hread
  exact h s c

/-- A configuration has the transaction section that its text gives, or the defaults. -/
theorem tx_of_ofMembers? {ms : Toml.Members} {c : Config} (h : ofMembers? ms = some c) :
    Follows Config.tx (Field.readSection TxSection.fields {}) {} c (ms.lookup "tx") := by
  have hothers : ∀ p ∈ parts.take 2 ++ parts.drop 3, p.Spares Config.tx := by
    simp only [parts, List.take_succ_cons, List.take_zero, List.drop_succ_cons, List.drop_zero,
      List.cons_append, List.nil_append, List.forall_mem_cons]
    exact ⟨Part.spares_of fun _ _ => rfl, Part.spares_of fun _ _ => rfl,
      Part.spares_of fun _ _ => rfl, Part.spares_of fun _ _ => rfl,
      fun _ h => absurd h List.not_mem_nil⟩
  refine foldlM_lookup_one (fun p hp => hothers p (List.mem_append_left _ hp))
    (fun p hp => hothers p (List.mem_append_right _ hp)) ?_ h
  intro v c c' hread
  obtain ⟨t, ht, rfl⟩ := Option.map_eq_some_iff.1 hread
  exact ht

/-- A configuration has the gas adjustment that its text gives. -/
theorem gasAdjustment_of_ofMembers? {ms : Toml.Members} {c : Config} (h : ofMembers? ms = some c) :
    Follows (fun c : Config => c.tx.gasAdjustment) Field.readReal {} c
      (givenGasAdjustment ms) := by
  have htx := tx_of_ofMembers? h
  unfold givenGasAdjustment
  cases hv : ms.lookup "tx" with
  | some v =>
    rw [hv] at htx
    have hgas := gasAdjustment_of_readSection htx
    rw [Option.bind_some]
    cases hgiven : Field.given "gas_adjustment" 5 v with
    | some w =>
      rw [hgiven] at hgas
      exact hgas
    | none =>
      rw [hgiven] at hgas
      exact hgas
  | none =>
    rw [hv] at htx
    exact congrArg TxSection.gasAdjustment htx

/-! ## What is no number -/

/-- Only what is no number is read as none. -/
theorem readReal_eq_nan_iff {v : Toml.Value} :
    Field.readReal v = some .nan ↔ v = .real .nan := by
  cases v with
  | real x => simp [Field.readReal]
  | integer n =>
    have hne := Binary64.ofRatio_ne_nan (n < 0) n.natAbs 1
    simpa [Field.readReal, Binary64.ofInt] using hne
  | _ => simp [Field.readReal]

theorem gasAdjustment_eq_nan_iff {ms : Toml.Members} {c : Config} (h : ofMembers? ms = some c) :
    c.tx.gasAdjustment = .nan ↔ givenGasAdjustment ms = some (.real .nan) := by
  have hgas := gasAdjustment_of_ofMembers? h
  cases hgiven : givenGasAdjustment ms with
  | some v =>
    rw [hgiven, Follows] at hgas
    rw [Option.some.injEq, ← readReal_eq_nan_iff, hgas, Option.some.injEq]
  | none =>
    rw [hgiven, Follows] at hgas
    have hdefault : defaultGasAdjustment ≠ .nan := by decide
    rw [hgas]
    simpa using hdefault

theorem parse_eq_ok_iff {text : String} {c : Config} : parse text = .ok c ↔
    ∃ ms, Toml.Members.ofText? text = some ms ∧ ofMembers? ms = some c := by
  rw [← Option.bind_eq_some_iff, parse]
  cases (Toml.Members.ofText? text).bind ofMembers? <;> simp

/-- In a configuration that has been parsed and checked, every whole number that tunes the node
    is positive, and so is the gas adjustment unless its text gives it no number. -/
theorem checked_tuning {text : String} {c : Config} (hparse : parse text = .ok c)
    (hcheck : c.validate = .ok ()) :
    (∀ seconds ∈ c.node.intervals.toList, 0 < seconds) ∧ 0 < c.query.timeout ∧
    0 < c.query.probeTimeout ∧ 0 < c.tx.gas ∧ 0 < c.service.maxPeers ∧
    ∃ ms, Toml.Members.ofText? text = some ms ∧
      (c.tx.gasAdjustment.isPositive ↔ givenGasAdjustment ms ≠ some (.real .nan)) := by
  have hsound := validate_eq_ok_iff_sound.1 hcheck
  obtain ⟨ms, htext, hmembers⟩ := parse_eq_ok_iff.1 hparse
  refine ⟨hsound.intervals, hsound.timeout, hsound.probeTimeout, hsound.gas, hsound.maxPeers,
    ms, htext, ?_⟩
  rw [Ne, ← gasAdjustment_eq_nan_iff hmembers]
  obtain hnan | hpositive := Binary64.isAtMostZero_eq_false_iff.1 hsound.gasAdjustment
  · simp [hnan, Binary64.isPositive]
  · have hne : c.tx.gasAdjustment ≠ .nan := by
      intro hnan
      rw [hnan] at hpositive
      exact Bool.noConfusion hpositive
    simp [hpositive, hne]

/-- A file with the settings that must be given, and with a gas adjustment. -/
def fileWith (adjustment : String) : String :=
  "[node]\nmoniker = \"node-a\"\nremote_url = \"https://node-a.example:7777\"\n" ++
    "[tx]\nchain_id = \"dvpn-1\"\nfrom_name = \"operator\"\n" ++
    "from_address = \"sent1qvpsxqcrqvpsxqcrqvpsxqcrqvpsxqcreusrgy\"\n" ++
    "gas_adjustment = " ++ adjustment ++ "\n"

/-- What is in that file. -/
def configWith (adjustment : Binary64) : Config where
  node := { moniker := "node-a", remoteUrl := "https://node-a.example:7777" }
  tx := {
    chainId := "dvpn-1"
    fromName := "operator"
    fromAddress := "sent1qvpsxqcrqvpsxqcrqvpsxqcrqvpsxqcreusrgy"
    gasAdjustment := adjustment }

theorem checked_tuning_infinite : ∃ ms, Toml.Members.ofText? (fileWith "+inf") = some ms ∧
    givenGasAdjustment ms ≠ some (.real .nan) := by
  have hparse : parse (fileWith "+inf") = .ok (configWith (.infinite false)) := by decide +kernel
  obtain ⟨-, -, -, -, -, ms, htext, hpositive⟩ := checked_tuning hparse (by decide)
  exact ⟨ms, htext, hpositive.1 (by decide)⟩

/-- What is no number passes the check of the gas adjustment. -/
theorem check_passes_nan : parse (fileWith "nan") = .ok (configWith .nan) ∧
    (configWith .nan).validate = .ok () ∧
    (configWith .nan).tx.gasAdjustment.isPositive = false :=
  ⟨by decide +kernel, by decide, rfl⟩

end VpnNode.Config
