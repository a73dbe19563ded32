import VpnNode.Proofs.Toml.Statement

/-!
# Sheets are read back

The text of a sheet is read as its statements, a header and its keys for each section, and these
build the tables of the sheet: a header opens a new table at the end, and each key adds its value
to the table that was opened last.

Main statements:

* `reads_write`: the text of a sheet is read as its statements.
* `foldlM_add`: the statements build the tables.
* `ofText?_write`: a sheet is read back from its text.
-/

namespace VpnNode.Toml

open Statement (IsBare Reads isBareChar)

/-! ## Members -/

/-- A new key comes last. -/
theorem Members.update_of_notMem {ms : Members} {key : String} (h : key ∉ ms.map Prod.fst)
    (f : Option Value → Option Value) :
    ms.update key f = (f none).map fun v => ms ++ [(key, v)] := by
  induction ms with
  | nil => rfl
  | cons m ms ih =>
    obtain ⟨k, v⟩ := m
    rw [List.map_cons, List.mem_cons, not_or] at h
    rw [Members.update, if_neg (Ne.symm h.1), ih h.2, Option.map_map]
    rfl

/-- The value of the last key is changed in its place. -/
theorem Members.update_last {ms : Members} {key : String} (h : key ∉ ms.map Prod.fst) (v : Value)
    (f : Option Value → Option Value) :
    Members.update key f (ms ++ [(key, v)]) = (f (some v)).map fun v => ms ++ [(key, v)] := by
  induction ms with
  | nil =>
    rw [List.nil_append, Members.update, if_pos rfl]
    rfl
  | cons m ms ih =>
    obtain ⟨k, w⟩ := m
    rw [List.map_cons, List.mem_cons, not_or] at h
    rw [List.cons_append, Members.update, if_neg (Ne.symm h.1), ih h.2, Option.map_map]
    rfl

theorem Members.lookup_eq_none {ms : Members} {key : String} (h : key ∉ ms.map Prod.fst) :
    ms.lookup key = none := by
  have hfind : ms.find? (fun m => m.1 == key) = none := by
    rw [List.find?_eq_none]
    intro m hm heq
    exact h (List.mem_map.2 ⟨m, hm, eq_of_beq heq⟩)
  rw [Members.lookup, hfind]
  rfl

theorem Members.lookup_of_mem {ms : Members} (h : (ms.map Prod.fst).Nodup) {key : String} {v : Value}
    (hmem : (key, v) ∈ ms) : ms.lookup key = some v := by
  induction ms with
  | nil => exact absurd hmem List.not_mem_nil
  | cons m ms ih =>
    rw [List.map_cons, List.nodup_cons] at h
    unfold Members.lookup at ih ⊢
    rw [List.find?_cons]
    obtain rfl | hmem := List.mem_cons.1 hmem
    · rw [beq_self_eq_true]
      rfl
    · have hne : m.1 ≠ key := fun heq => h.1 (heq ▸ List.mem_map_of_mem hmem)
      rw [beq_false_of_ne hne]
      exact ih h.2 hmem

namespace Sheet

/-- The names and keys of a sheet need no quotes, and none is given twice. -/
structure WellFormed (sheet : Sheet) : Prop where
  isBare_name : ∀ s ∈ sheet, IsBare s.1
  isBare_key : ∀ s ∈ sheet, ∀ l ∈ s.2, IsBare l.1
  nodup_names : (sheet.map Prod.fst).Nodup
  nodup_keys : ∀ s ∈ sheet, (s.2.map Prod.fst).Nodup

/-- The members of a section. -/
def sectionMembers (lines : List (String × Entry)) : Members :=
  lines.map fun (key, e) => (key, e.toValue)

/-- The members of a sheet. -/
def members (sheet : Sheet) : Members :=
  sheet.map fun (name, lines) => (name, .table .header (sectionMembers lines))

/-! ## Reading -/

/-- The statements of the lines of a section. -/
def pairs (lines : List (String × Entry)) : List Statement :=
  lines.map fun (key, e) => .pair [key] e.toValue

/-- The statements of a sheet. -/
def statements (sheet : Sheet) : List Statement :=
  sheet.flatMap fun (name, lines) => .table [name] :: pairs lines

theorem reads_pair {key : String} (hkey : IsBare key) {e : Entry} (he : e.isWritable = true)
    {cs : List Char} {ss : List Statement} (h : Reads cs ss) :
    Reads (key.toList ++ ' ' :: '=' :: ' ' :: (e.write ++ '\n' :: cs))
      (.pair [key] e.toValue :: ss) := by
  have hread := Statement.read_pair hkey he cs
  obtain ⟨c, t, heq, hc⟩ := hkey.exists_cons
  rw [heq, List.cons_append] at hread ⊢
  refine Reads.cons (.inr hc) hread ?_ h
  simp only [List.length_append, List.length_cons]
  omega

/-- The lines of a section. -/
def writeLines (lines : List (String × Entry)) : List Char :=
  lines.flatMap fun (key, e) => key.toList ++ [' ', '=', ' '] ++ e.write ++ ['\n']

theorem reads_lines {lines : List (String × Entry)} (hbare : ∀ l ∈ lines, IsBare l.1)
    (hwritable : lines.all (fun e => e.2.isWritable) = true) {cs : List Char} {ss : List Statement}
    (h : Reads cs ss) : Reads (writeLines lines ++ cs) (pairs lines ++ ss) := by
  induction lines with
  | nil => exact h
  | cons l lines ih =>
    obtain ⟨key, e⟩ := l
    obtain ⟨hkey, hkeys⟩ := List.forall_mem_cons.1 hbare
    rw [List.all_cons, Bool.and_eq_true] at hwritable
    have hline := reads_pair hkey hwritable.1 (ih hkeys hwritable.2)
    have hjoin : writeLines ((key, e) :: lines) ++ cs =
        key.toList ++ ' ' :: '=' :: ' ' :: (e.write ++ '\n' :: (writeLines lines ++ cs)) := by
      unfold writeLines
      simp
    rw [hjoin]
    exact hline

theorem reads_section {name : String} {lines : List (String × Entry)} (hname : IsBare name)
    (hbare : ∀ l ∈ lines, IsBare l.1) (hwritable : lines.all (fun e => e.2.isWritable) = true)
    {cs : List Char} {ss : List Statement} (h : Reads cs ss) :
    Reads (writeSection name lines ++ cs) (.table [name] :: pairs lines ++ ss) := by
  have hjoin : writeSection name lines ++ cs =
      '[' :: (name.toList ++ ']' :: '\n' :: (writeLines lines ++ cs)) := by
    unfold writeSection writeLines
    simp
  rw [hjoin]
  refine Reads.cons (.inl rfl) (Statement.read_header hname _) ?_ (reads_lines hbare hwritable h)
  simp only [List.length_append, List.length_cons]
  omega

/-- The text of a sheet is read as its statements. -/
theorem reads_write {sheet : Sheet} (hnames : ∀ s ∈ sheet, IsBare s.1)
    (hkeys : ∀ s ∈ sheet, ∀ l ∈ s.2, IsBare l.1) (hwritable : sheet.isWritable = true) :
    Reads sheet.write sheet.statements := by
  induction sheet with
  | nil => exact Statement.reads_nil
  | cons s sheet ih =>
    obtain ⟨name, lines⟩ := s
    obtain ⟨hname, hnames⟩ := List.forall_mem_cons.1 hnames
    obtain ⟨hkey, hkeys⟩ := List.forall_mem_cons.1 hkeys
    unfold isWritable at ih hwritable
    rw [List.all_cons, Bool.and_eq_true] at hwritable
    have hrest := ih hnames hkeys hwritable.2
    cases sheet with
    | nil =>
      have hsection := reads_section hname hkey hwritable.1 Statement.reads_nil
      have hwrite : write [(name, lines)] = writeSection name lines ++ [] := by
        unfold write
        simp
      rw [hwrite]
      exact hsection
    | cons s sheet =>
      have hwrite : write ((name, lines) :: s :: sheet) =
          writeSection name lines ++ '\n' :: write (s :: sheet) := by
        unfold write
        simp [List.intercalate_cons_cons]
      rw [hwrite]
      exact reads_section hname hkey hwritable.1 hrest.newline

/-! ## Building -/

/-- A new header opens a table at the end. -/
theorem add_table {ms : Members} {name : String} (h : name ∉ ms.map Prod.fst)
    (header : List String) :
    Draft.add ⟨ms, header⟩ (.table [name]) = some ⟨ms ++ [(name, .table .header [])], [name]⟩ := by
  have hopen : ms.openTable [name] = some (ms ++ [(name, .table .header [])]) :=
    Members.update_of_notMem h _
  rw [Draft.add, hopen]
  rfl

/-- A new key adds its value to the table that was opened last. -/
theorem add_pair {ms ns : Members} {name key : String} (hname : name ∉ ms.map Prod.fst)
    (hkey : key ∉ ns.map Prod.fst) (v : Value) :
    Draft.add ⟨ms ++ [(name, .table .header ns)], [name]⟩ (.pair [key] v) =
      some ⟨ms ++ [(name, .table .header (ns ++ [(key, v)]))], [name]⟩ := by
  have hput : Members.put v [key] ns = some (ns ++ [(key, v)]) :=
    Members.putKey_eq_some_iff.2 ⟨Members.lookup_eq_none hkey, rfl⟩
  have hopen : Members.atOpen (Members.put v [key]) [name] (ms ++ [(name, .table .header ns)]) =
      some (ms ++ [(name, .table .header (ns ++ [(key, v)]))]) := by
    rw [Members.atOpen, Members.atHeader, Members.update_last hname]
    · dsimp only
      rw [hput]
      rfl
    · exact List.cons_ne_nil name []
  rw [Draft.add]
  dsimp only
  rw [hopen]
  rfl

theorem foldlM_pairs {ms ns : Members} {name : String} (hname : name ∉ ms.map Prod.fst)
    {lines : List (String × Entry)} (hkeys : (ns.map Prod.fst ++ lines.map Prod.fst).Nodup) :
    (pairs lines).foldlM Draft.add ⟨ms ++ [(name, .table .header ns)], [name]⟩ =
      some ⟨ms ++ [(name, .table .header (ns ++ sectionMembers lines))], [name]⟩ := by
  induction lines generalizing ns with
  | nil =>
    rw [sectionMembers, List.map_nil, List.append_nil]
    rfl
  | cons l lines ih =>
    obtain ⟨key, e⟩ := l
    have hkey : key ∉ ns.map Prod.fst := by
      intro hmem
      exact (List.nodup_append.1 hkeys).2.2 key hmem key List.mem_cons_self rfl
    have hkeys' : ((ns ++ [(key, e.toValue)]).map Prod.fst ++ lines.map Prod.fst).Nodup := by
      rw [List.map_append, List.append_assoc]
      exact hkeys
    have hstep : (pairs ((key, e) :: lines)).foldlM Draft.add
          ⟨ms ++ [(name, .table .header ns)], [name]⟩ =
        (Draft.add ⟨ms ++ [(name, .table .header ns)], [name]⟩ (.pair [key] e.toValue)).bind
          ((pairs lines).foldlM Draft.add) := rfl
    rw [hstep, add_pair hname hkey, Option.bind_some, ih hkeys', List.append_assoc]
    rfl

/-- The statements of a sheet build its tables. -/
theorem foldlM_add {sheet : Sheet} {ms : Members} (header : List String)
    (hnames : (ms.map Prod.fst ++ sheet.map Prod.fst).Nodup)
    (hkeys : ∀ s ∈ sheet, (s.2.map Prod.fst).Nodup) :
    ∃ header', (statements sheet).foldlM Draft.add ⟨ms, header⟩ =
      some ⟨ms ++ sheet.members, header'⟩ := by
  induction sheet generalizing ms header with
  | nil =>
    refine ⟨header, ?_⟩
    rw [members, List.map_nil, List.append_nil]
    rfl
  | cons s sheet ih =>
    obtain ⟨name, lines⟩ := s
    obtain ⟨hkey, hkeys⟩ := List.forall_mem_cons.1 hkeys
    have hname : name ∉ ms.map Prod.fst := by
      intro hmem
      exact (List.nodup_append.1 hnames).2.2 name hmem name List.mem_cons_self rfl
    have hnames' : (List.map Prod.fst (ms ++ [(name, Value.table .header (sectionMembers lines))]) ++
        sheet.map Prod.fst).Nodup := by
      rw [List.map_append, List.append_assoc]
      exact hnames
    obtain ⟨header', hrest⟩ := ih [name] hnames' hkeys
    have hsection : (pairs lines).foldlM Draft.add ⟨ms ++ [(name, .table .header [])], [name]⟩ =
        some ⟨ms ++ [(name, .table .header ([] ++ sectionMembers lines))], [name]⟩ :=
      foldlM_pairs hname hkey
    refine ⟨header', ?_⟩
    have hstep : statements ((name, lines) :: sheet) =
        Statement.table [name] :: (pairs lines ++ statements sheet) := rfl
    rw [hstep, List.foldlM_cons, add_table hname, Option.bind_eq_bind, Option.bind_some,
      List.foldlM_append, hsection, Option.bind_eq_bind, Option.bind_some,
      List.nil_append, hrest, List.append_assoc]
    rfl

/-- A sheet that is not empty begins with a bracket. -/
theorem write_ne_cons (sheet : Sheet) {c : Char} (hc : c ≠ '[') (r : List Char) :
    sheet.write ≠ c :: r := by
  match sheet with
  | [] => exact fun he => absurd he.symm (List.cons_ne_nil c r)
  | [s] => exact fun he => hc (List.cons.inj he).1.symm
  | s :: s' :: sheet => exact fun he => hc (List.cons.inj he).1.symm

/-- A sheet is read back from its text. -/
theorem ofText?_write {sheet : Sheet} (h : sheet.WellFormed) (hwritable : sheet.isWritable = true) :
    Members.ofText? (String.ofList sheet.write) = some sheet.members := by
  have hread : Statement.ofText? (String.ofList sheet.write) = some sheet.statements := by
    unfold Statement.ofText?
    rw [String.toList_ofList]
    split
    · rename_i heq
      exact absurd heq (write_ne_cons sheet (by decide) _)
    · exact reads_write h.isBare_name h.isBare_key hwritable _ (Nat.lt_succ_self _)
  obtain ⟨header, hbuild⟩ : ∃ header, sheet.statements.foldlM Draft.add {} =
      some ⟨[] ++ sheet.members, header⟩ := foldlM_add [] h.nodup_names h.nodup_keys
  unfold Members.ofText?
  rw [hread]
  exact congrArg (fun d : Option Draft => d.bind fun d => some d.members) hbuild

end Sheet

end VpnNode.Toml
