import Virtualization.Lib.Outcome
import Mathlib.Data.List.Basic

/-!
# `ApexInfoList::override_staged_apex`

With `prefer_staged`, `get_apex_list` replaces the APEXes of the list from `/apex/apex-info-list.xml`
by the staged ones the package manager names.  For each staged APEX, `override_staged_apex` walks
the list: an entry of the module that is active is overridden with the staged version, path and
classpath flag and the time of the staged file, and an entry that is both active and factory is
first copied, inactive, to be pushed after the loop, and made non-factory.

In a list where each module has at most one active and at most one factory entry
(`ApexInfoList.WellFormed`) one call appends at most one copy, so it is the list with its entries
overridden and the copy of the module's active factory entry after them
(`overrideStagedApex_eq_ok`).  From that, every sequence of calls that return `Ok` keeps the list
well formed, keeps the factory entry of every module, as an inactive copy when it was the active
one, leaves the modules no call names as they were, and leaves the active entry of each module
with the last staged APEX of that module (`overrideStagedApex_seq`).
-/

namespace Virtualization.VirtualizationService

/-- `ApexInfo`, with the fields `override_staged_apex` reads or writes. -/
structure ApexInfo where
  name : String
  version : Nat
  path : String
  hasClasspathJar : Bool
  lastUpdateSeconds : Nat
  isFactory : Bool
  isActive : Bool
deriving DecidableEq, Repr

/-- `ApexInfoList`. -/
structure ApexInfoList where
  list : List ApexInfo
deriving DecidableEq, Repr

/-- `StagedApexInfo` of `IPackageManagerNative`, with the fields `override_staged_apex` reads. -/
structure StagedApexInfo where
  moduleName : String
  diskImagePath : String
  versionCode : Int
  hasClassPathJars : Bool
deriving DecidableEq, Repr

variable {ε : Type} (lastUpdated : String → Except ε Nat)

/-- `staged_apex_info.versionCode as u64`, of an `i64`. -/
def StagedApexInfo.version (staged : StagedApexInfo) : Nat := (staged.versionCode % 2 ^ 64).toNat

/-- The body of the loop of `override_staged_apex` on one entry, with `need_to_add`; `lastUpdated`
is `last_updated`, the modification time of a file in seconds. -/
def overrideEntry (staged : StagedApexInfo) (needToAdd : Option ApexInfo) (apexInfo : ApexInfo) :
    Except ε (Option ApexInfo × ApexInfo) :=
  if staged.moduleName == apexInfo.name then
    -- the factory version is kept, as an inactive copy pushed after the loop
    let (needToAdd, apexInfo) :=
      if apexInfo.isActive && apexInfo.isFactory then
        (some { apexInfo with isActive := false }, { apexInfo with isFactory := false })
      else (needToAdd, apexInfo)
    if apexInfo.isActive then do
      let apexInfo := { apexInfo with version := staged.version, path := staged.diskImagePath,
                                      hasClasspathJar := staged.hasClassPathJars }
      let lastUpdateSeconds ← lastUpdated apexInfo.path
      pure (needToAdd, { apexInfo with lastUpdateSeconds })
    else pure (needToAdd, apexInfo)
  else pure (needToAdd, apexInfo)

/-- The loop of `override_staged_apex` over `self.list.iter_mut()`. -/
def overrideLoop (staged : StagedApexInfo) :
    Option ApexInfo → List ApexInfo → Except ε (Option ApexInfo × List ApexInfo)
  | needToAdd, [] => pure (needToAdd, [])
  | needToAdd, apexInfo :: rest => do
    let (needToAdd, apexInfo) ← overrideEntry lastUpdated staged needToAdd apexInfo
    let (needToAdd, rest) ← overrideLoop staged needToAdd rest
    pure (needToAdd, apexInfo :: rest)

/-- `ApexInfoList::override_staged_apex`. -/
def ApexInfoList.overrideStagedApex (self : ApexInfoList) (staged : StagedApexInfo) :
    Except ε ApexInfoList := do
  let (needToAdd, list) ← overrideLoop lastUpdated staged none self.list
  match needToAdd with
  | some info => pure ⟨list ++ [info]⟩
  | none => pure ⟨list⟩

/-! ## One call -/

namespace StagedApexInfo

variable (staged : StagedApexInfo)

/-- The entries the loop overrides: the active ones of the module. -/
def overrides (a : ApexInfo) : Bool := staged.moduleName == a.name && a.isActive

/-- The entries the loop copies: the active factory ones of the module. -/
def copies (a : ApexInfo) : Bool := staged.overrides a && a.isFactory

/-- An entry after the loop, with `t` the time `last_updated` returned for the staged file. -/
def apply (t : Nat) (a : ApexInfo) : ApexInfo :=
  if staged.overrides a then
    { a with isFactory := false, version := staged.version, path := staged.diskImagePath,
             hasClasspathJar := staged.hasClassPathJars, lastUpdateSeconds := t }
  else a

variable {staged}

@[simp] theorem name_apply (t : Nat) (a : ApexInfo) : (staged.apply t a).name = a.name := by
  unfold apply
  split <;> rfl

@[simp] theorem isActive_apply (t : Nat) (a : ApexInfo) :
    (staged.apply t a).isActive = a.isActive := by
  unfold apply
  split <;> rfl

theorem isFactory_apply (t : Nat) (a : ApexInfo) :
    (staged.apply t a).isFactory = (a.isFactory && !staged.overrides a) := by
  unfold apply
  split
  · rename_i h
    rw [h, Bool.not_true, Bool.and_false]
  · rename_i h
    rw [Bool.eq_false_iff.mpr h, Bool.not_false, Bool.and_true]

theorem apply_of_not {t : Nat} {a : ApexInfo} (h : staged.overrides a = false) :
    staged.apply t a = a := by
  rw [apply, if_neg (by rw [h]; exact Bool.false_ne_true)]

/-- Two times give the same entries where no entry is overridden. -/
theorem map_apply_congr {t t' : Nat} {l : List ApexInfo}
    (h : (∃ a ∈ l, staged.overrides a = true) → t = t') :
    l.map (staged.apply t) = l.map (staged.apply t') := by
  by_cases hex : ∃ a ∈ l, staged.overrides a = true
  · rw [h hex]
  · refine List.map_congr_left fun a ha ↦ ?_
    have hno : staged.overrides a = false := Bool.eq_false_iff.mpr fun hov ↦ hex ⟨a, ha, hov⟩
    rw [apply_of_not hno, apply_of_not hno]

end StagedApexInfo

/-- The list `override_staged_apex` leaves when `last_updated` returns `t`: the entries
overridden, then the copies of the active factory entries. -/
def overriddenList (staged : StagedApexInfo) (t : Nat) (l : List ApexInfo) : List ApexInfo :=
  l.map (staged.apply t) ++ (l.filter staged.copies).map fun a ↦ { a with isActive := false }

variable {lastUpdated}

/-- The copy the loop makes of an entry, if any. -/
def StagedApexInfo.copyOf (staged : StagedApexInfo) (a : ApexInfo) : Option ApexInfo :=
  if staged.copies a then some { a with isActive := false } else none

/-- An entry the loop does not override is left as it is, and no copy is made. -/
theorem overrideEntry_of_not {staged : StagedApexInfo} {a : ApexInfo}
    (hov : staged.overrides a = false) (needToAdd : Option ApexInfo) :
    overrideEntry lastUpdated staged needToAdd a = .ok (needToAdd, a) := by
  unfold overrideEntry
  split
  · rename_i hname
    have hactive : a.isActive = false := by
      simpa [StagedApexInfo.overrides, hname] using hov
    simp [hactive]
    rfl
  · rfl

/-- An entry the loop overrides takes the staged APEX, and an active factory entry is copied. -/
theorem overrideEntry_of_overrides {staged : StagedApexInfo} {a : ApexInfo}
    (hov : staged.overrides a = true) {t : Nat} (hlu : lastUpdated staged.diskImagePath = .ok t)
    (needToAdd : Option ApexInfo) :
    overrideEntry lastUpdated staged needToAdd a =
      .ok ((staged.copyOf a).or needToAdd, staged.apply t a) := by
  obtain ⟨name, version, path, jar, seconds, factory, active⟩ := a
  simp only [StagedApexInfo.overrides, Bool.and_eq_true, beq_iff_eq] at hov
  obtain ⟨rfl, rfl⟩ := hov
  cases factory <;>
    simp [overrideEntry, StagedApexInfo.copyOf, StagedApexInfo.copies, StagedApexInfo.apply,
      StagedApexInfo.overrides, hlu]

theorem overrideEntry_of_error {staged : StagedApexInfo} {a : ApexInfo}
    (hov : staged.overrides a = true) {e : ε} (hlu : lastUpdated staged.diskImagePath = .error e)
    (needToAdd : Option ApexInfo) : overrideEntry lastUpdated staged needToAdd a = .error e := by
  obtain ⟨name, version, path, jar, seconds, factory, active⟩ := a
  simp only [StagedApexInfo.overrides, Bool.and_eq_true, beq_iff_eq] at hov
  obtain ⟨rfl, rfl⟩ := hov
  cases factory <;> simp [overrideEntry, hlu]

theorem filterMap_cons_toList {α β : Type} (f : α → Option β) (a : α) (l : List α) :
    (a :: l).filterMap f = (f a).toList ++ l.filterMap f := by
  rw [List.filterMap_cons]
  cases f a <;> rfl

theorem getLast?_toList_append_or {α : Type} (o acc : Option α) (m : List α) :
    (o.toList ++ m).getLast?.or acc = m.getLast?.or (o.or acc) := by
  rw [List.getLast?_append, Option.or_assoc]
  cases o <;> rfl

theorem filterMap_copyOf (staged : StagedApexInfo) (l : List ApexInfo) :
    l.filterMap staged.copyOf = (l.filter staged.copies).map fun a ↦ { a with isActive := false } := by
  induction l with
  | nil => rfl
  | cons a l ih =>
    rw [filterMap_cons_toList, List.filter_cons, ih]
    by_cases hc : staged.copies a = true
    · rw [StagedApexInfo.copyOf, if_pos hc, if_pos hc]
      rfl
    · rw [StagedApexInfo.copyOf, if_neg hc, if_neg hc]
      rfl

/-- The loop overrides the entries with the time `last_updated` returned, and `need_to_add` ends
as the copy of the last active factory entry. -/
theorem overrideLoop_eq_ok {staged : StagedApexInfo} {acc acc' : Option ApexInfo}
    {l l' : List ApexInfo} (h : overrideLoop lastUpdated staged acc l = .ok (acc', l')) :
    ∃ t, ((∃ a ∈ l, staged.overrides a = true) → lastUpdated staged.diskImagePath = .ok t) ∧
      l' = l.map (staged.apply t) ∧ acc' = (l.filterMap staged.copyOf).getLast?.or acc := by
  induction l generalizing acc acc' l' with
  | nil =>
    cases h
    exact ⟨0, fun ⟨_, ha, _⟩ ↦ absurd ha List.not_mem_nil, rfl, rfl⟩
  | cons a l ih =>
    rw [overrideLoop] at h
    obtain ⟨⟨acc₁, a'⟩, hentry, h⟩ := Except.bind_eq_ok.1 h
    obtain ⟨⟨acc₂, rest⟩, hloop, h⟩ := Except.bind_eq_ok.1 h
    cases h
    obtain ⟨t₁, hlu₁, rfl, rfl⟩ := ih hloop
    rw [filterMap_cons_toList, getLast?_toList_append_or]
    cases hov : staged.overrides a with
    | false =>
      rw [overrideEntry_of_not hov] at hentry
      cases hentry
      have hcopy : staged.copyOf a = none := by
        rw [StagedApexInfo.copyOf, StagedApexInfo.copies, hov, Bool.false_and,
          if_neg Bool.false_ne_true]
      refine ⟨t₁, fun ⟨b, hb, hbov⟩ ↦ ?_, by rw [List.map_cons, StagedApexInfo.apply_of_not hov],
        by rw [hcopy, Option.none_or]⟩
      rcases List.mem_cons.1 hb with rfl | hb
      · rw [hov] at hbov
        cases hbov
      · exact hlu₁ ⟨b, hb, hbov⟩
    | true =>
      cases hlu : lastUpdated staged.diskImagePath with
      | error e =>
        rw [overrideEntry_of_error hov hlu] at hentry
        cases hentry
      | ok t =>
        rw [overrideEntry_of_overrides hov hlu] at hentry
        cases hentry
        have hsame : l.map (staged.apply t₁) = l.map (staged.apply t) :=
          StagedApexInfo.map_apply_congr fun hex ↦ by
            have hlu' := hlu₁ hex
            rw [hlu] at hlu'
            exact (Except.ok.inj hlu').symm
        exact ⟨t, fun _ ↦ rfl, by rw [List.map_cons, hsame], rfl⟩

/-! ## Well-formed lists -/

/-- Each module has at most one active entry and at most one factory entry. -/
structure ApexInfoList.WellFormed (l : ApexInfoList) : Prop where
  active_le_one : ∀ name, l.list.countP (fun a ↦ name == a.name && a.isActive) ≤ 1
  factory_le_one : ∀ name, l.list.countP (fun a ↦ name == a.name && a.isFactory) ≤ 1

theorem length_filter_copies_le_one {l : ApexInfoList} (hwf : l.WellFormed)
    (staged : StagedApexInfo) : (l.list.filter staged.copies).length ≤ 1 := by
  rw [← List.countP_eq_length_filter]
  refine Nat.le_trans (List.countP_mono_left fun a _ hc ↦ ?_) (hwf.active_le_one staged.moduleName)
  rw [StagedApexInfo.copies, Bool.and_eq_true] at hc
  exact hc.1

theorem toList_getLast?_of_length_le_one {α : Type} {l : List α} (hl : l.length ≤ 1) :
    l.getLast?.toList = l := by
  match l, hl with
  | [], _ => rfl
  | [_], _ => rfl

variable {staged : StagedApexInfo}

/-- In a well-formed list one call appends at most one copy: it leaves `overriddenList`. -/
theorem overrideStagedApex_eq_ok {l l' : ApexInfoList} (hwf : l.WellFormed)
    (h : l.overrideStagedApex lastUpdated staged = .ok l') :
    ∃ t, ((∃ a ∈ l.list, staged.overrides a = true) →
        lastUpdated staged.diskImagePath = .ok t) ∧
      l'.list = overriddenList staged t l.list := by
  rw [ApexInfoList.overrideStagedApex] at h
  obtain ⟨⟨needToAdd, list⟩, hloop, h⟩ := Except.bind_eq_ok.1 h
  obtain ⟨t, hlu, rfl, rfl⟩ := overrideLoop_eq_ok hloop
  have hcopies : ((l.list.filterMap staged.copyOf).getLast?.or none).toList =
      (l.list.filter staged.copies).map fun a ↦ { a with isActive := false } := by
    rw [Option.or_none, filterMap_copyOf]
    exact toList_getLast?_of_length_le_one
      (by rw [List.length_map]; exact length_filter_copies_le_one hwf staged)
  refine ⟨t, hlu, ?_⟩
  rw [overriddenList, ← hcopies]
  cases hneed : (l.list.filterMap staged.copyOf).getLast?.or none with
  | none =>
    rw [hneed] at h
    cases h
    exact (List.append_nil _).symm
  | some info =>
    rw [hneed] at h
    cases h
    rfl

/-! ## What one call keeps -/

section OverriddenList

variable (staged : StagedApexInfo) (t : Nat) (l : List ApexInfo)

/-- The entries stay active or inactive, and the copies are inactive. -/
theorem countP_active_overriddenList (name : String) :
    (overriddenList staged t l).countP (fun a ↦ name == a.name && a.isActive) =
      l.countP (fun a ↦ name == a.name && a.isActive) := by
  have hcopies : ((l.filter staged.copies).map fun a ↦ { a with isActive := false }).countP
      (fun a ↦ name == a.name && a.isActive) = 0 :=
    List.countP_eq_zero.2 fun a ha ↦ by
      obtain ⟨b, -, rfl⟩ := List.mem_map.1 ha
      simp
  rw [overriddenList, List.countP_append, hcopies, Nat.add_zero, List.countP_map]
  exact List.countP_congr fun a _ ↦ by simp

/-- An active factory entry stops being factory, and its copy is: each module keeps as many
factory entries. -/
theorem countP_factory_overriddenList (name : String) :
    (overriddenList staged t l).countP (fun a ↦ name == a.name && a.isFactory) =
      l.countP (fun a ↦ name == a.name && a.isFactory) := by
  have hsplit := List.countP_eq_countP_filter_add l (fun a ↦ name == a.name && a.isFactory)
    staged.overrides
  rw [List.countP_filter, List.countP_filter] at hsplit
  rw [hsplit, overriddenList, List.countP_append, List.countP_map, List.countP_map,
    List.countP_filter, Nat.add_comm]
  congr 1
  · refine List.countP_congr fun a _ ↦ ?_
    simp only [Function.comp_apply, StagedApexInfo.copies]
    cases staged.overrides a <;> cases a.isFactory <;> simp
  · refine List.countP_congr fun a _ ↦ ?_
    simp only [Function.comp_apply, StagedApexInfo.name_apply, StagedApexInfo.isFactory_apply]
    cases staged.overrides a <;> cases a.isFactory <;> simp

/-- The entries of another module are left as they are. -/
theorem filter_overriddenList {name : String} (hname : staged.moduleName ≠ name) :
    (overriddenList staged t l).filter (fun a ↦ name == a.name) =
      l.filter (fun a ↦ name == a.name) := by
  have hov : ∀ a, (name == a.name) = true → staged.overrides a = false := by
    intro a ha
    rw [beq_iff_eq] at ha
    rw [StagedApexInfo.overrides, ← ha, beq_false_of_ne hname, Bool.false_and]
  have hnone : ((l.filter staged.copies).map fun a ↦ { a with isActive := false }).filter
      (fun a ↦ name == a.name) = [] := by
    rw [List.filter_eq_nil_iff]
    intro a ha hname'
    obtain ⟨b, hb, rfl⟩ := List.mem_map.1 ha
    have hcopies := (List.mem_filter.1 hb).2
    rw [StagedApexInfo.copies, hov b hname', Bool.false_and] at hcopies
    cases hcopies
  have hsame : l.filter ((fun a ↦ name == a.name) ∘ staged.apply t) =
      l.filter (fun a ↦ name == a.name) :=
    List.filter_congr fun a _ ↦ by rw [Function.comp_apply, StagedApexInfo.name_apply]
  rw [overriddenList, List.filter_append, hnone, List.append_nil, List.filter_map, hsame]
  refine (List.map_congr_left fun a ha ↦ ?_).trans (List.map_id _)
  exact StagedApexInfo.apply_of_not (hov a (List.mem_filter.1 ha).2)

/-- A factory entry is kept, as an inactive copy when it was the active one. -/
theorem factory_mem_overriddenList {a : ApexInfo} (ha : a ∈ l) (hfac : a.isFactory = true) :
    (if staged.overrides a then { a with isActive := false } else a) ∈ overriddenList staged t l := by
  split
  · rename_i hov
    have hcopies : staged.copies a = true := by rw [StagedApexInfo.copies, hov, hfac]; rfl
    exact List.mem_append_right _ (List.mem_map_of_mem (List.mem_filter.2 ⟨ha, hcopies⟩))
  · rename_i hov
    have happly := List.mem_map_of_mem (f := staged.apply t) ha
    rw [StagedApexInfo.apply_of_not (Bool.eq_false_iff.mpr hov)] at happly
    exact List.mem_append_left _ happly

theorem apply_mem_overriddenList {a : ApexInfo} (ha : a ∈ l) :
    staged.apply t a ∈ overriddenList staged t l :=
  List.mem_append_left _ (List.mem_map_of_mem ha)

end OverriddenList

/-- The active entry of the module, overridden: the staged version, path and classpath flag. -/
theorem apply_of_overrides {a : ApexInfo} (hov : staged.overrides a = true) (t : Nat) :
    (staged.apply t a).name = staged.moduleName ∧ (staged.apply t a).isActive = true ∧
      (staged.apply t a).version = staged.version ∧
      (staged.apply t a).path = staged.diskImagePath ∧
      (staged.apply t a).hasClasspathJar = staged.hasClassPathJars := by
  have hfields := hov
  rw [StagedApexInfo.overrides, Bool.and_eq_true, beq_iff_eq] at hfields
  rw [StagedApexInfo.apply, if_pos hov]
  exact ⟨hfields.1.symm, hfields.2, rfl, rfl, rfl⟩

theorem ApexInfoList.WellFormed.of_overriddenList {l l' : ApexInfoList} (hwf : l.WellFormed)
    {t : Nat} (hl' : l'.list = overriddenList staged t l.list) : l'.WellFormed where
  active_le_one name := by
    rw [hl', countP_active_overriddenList]
    exact hwf.active_le_one name
  factory_le_one name := by
    rw [hl', countP_factory_overriddenList]
    exact hwf.factory_le_one name

/-! ## Sequences of calls -/

section Sequence

variable {l l' : ApexInfoList} {stageds : List StagedApexInfo}

/-- The calls of `get_apex_list`'s loop, one after another. -/
theorem foldlM_cons_eq_ok {staged : StagedApexInfo}
    (h : (staged :: stageds).foldlM (fun l staged ↦ l.overrideStagedApex lastUpdated staged) l =
      .ok l') :
    ∃ l₁, l.overrideStagedApex lastUpdated staged = .ok l₁ ∧
      stageds.foldlM (fun l staged ↦ l.overrideStagedApex lastUpdated staged) l₁ = .ok l' := by
  rw [List.foldlM_cons] at h
  exact Except.bind_eq_ok.1 h

theorem wellFormed_of_foldlM (hwf : l.WellFormed)
    (h : stageds.foldlM (fun l staged ↦ l.overrideStagedApex lastUpdated staged) l = .ok l') :
    l'.WellFormed := by
  induction stageds generalizing l with
  | nil =>
    cases h
    exact hwf
  | cons staged stageds ih =>
    obtain ⟨l₁, h₁, hrest⟩ := foldlM_cons_eq_ok h
    obtain ⟨t, -, hl₁⟩ := overrideStagedApex_eq_ok hwf h₁
    exact ih (hwf.of_overriddenList hl₁) hrest

theorem filter_of_foldlM (hwf : l.WellFormed)
    (h : stageds.foldlM (fun l staged ↦ l.overrideStagedApex lastUpdated staged) l = .ok l')
    {name : String} (hname : name ∉ stageds.map StagedApexInfo.moduleName) :
    l'.list.filter (fun a ↦ name == a.name) = l.list.filter (fun a ↦ name == a.name) := by
  induction stageds generalizing l with
  | nil =>
    cases h
    rfl
  | cons staged stageds ih =>
    obtain ⟨l₁, h₁, hrest⟩ := foldlM_cons_eq_ok h
    obtain ⟨t, -, hl₁⟩ := overrideStagedApex_eq_ok hwf h₁
    rw [List.map_cons, List.mem_cons, not_or] at hname
    rw [ih (hwf.of_overriddenList hl₁) hrest hname.2, hl₁,
      filter_overriddenList staged t l.list (Ne.symm hname.1)]

theorem factory_mem_of_foldlM (hwf : l.WellFormed)
    (h : stageds.foldlM (fun l staged ↦ l.overrideStagedApex lastUpdated staged) l = .ok l')
    {a : ApexInfo} (ha : a ∈ l.list) (hfac : a.isFactory = true) :
    (if a.isActive = true ∧ a.name ∈ stageds.map StagedApexInfo.moduleName then
      { a with isActive := false } else a) ∈ l'.list := by
  induction stageds generalizing l a with
  | nil =>
    cases h
    simpa using ha
  | cons staged stageds ih =>
    obtain ⟨l₁, h₁, hrest⟩ := foldlM_cons_eq_ok h
    obtain ⟨t, -, hl₁⟩ := overrideStagedApex_eq_ok hwf h₁
    have ha₁ := factory_mem_overriddenList staged t l.list ha hfac
    rw [← hl₁] at ha₁
    cases hov : staged.overrides a with
    | true =>
      rw [if_pos hov] at ha₁
      have hmem := ih (hwf.of_overriddenList hl₁) hrest ha₁ hfac
      rw [if_neg (by simp)] at hmem
      rw [StagedApexInfo.overrides, Bool.and_eq_true, beq_iff_eq] at hov
      rw [if_pos ⟨hov.2, by simp [hov.1]⟩]
      exact hmem
    | false =>
      rw [if_neg (by rw [hov]; exact Bool.false_ne_true)] at ha₁
      have hmem := ih (hwf.of_overriddenList hl₁) hrest ha₁ hfac
      have hcond : (a.isActive = true ∧ a.name ∈ (staged :: stageds).map StagedApexInfo.moduleName) ↔
          (a.isActive = true ∧ a.name ∈ stageds.map StagedApexInfo.moduleName) := by
        rw [StagedApexInfo.overrides, Bool.and_eq_false_iff] at hov
        rw [List.map_cons, List.mem_cons]
        constructor
        · rintro ⟨hactive, hname | hname⟩
          · rw [hname, beq_self_eq_true] at hov
            simp [hactive] at hov
          · exact ⟨hactive, hname⟩
        · rintro ⟨hactive, hname⟩
          exact ⟨hactive, .inr hname⟩
      rw [if_congr hcond rfl rfl]
      exact hmem

theorem active_of_foldlM (hwf : l.WellFormed)
    (h : stageds.foldlM (fun l staged ↦ l.overrideStagedApex lastUpdated staged) l = .ok l')
    {pre post : List StagedApexInfo} {staged : StagedApexInfo}
    (hsplit : stageds = pre ++ staged :: post)
    (hlast : ∀ s ∈ post, s.moduleName ≠ staged.moduleName)
    (hactive : ∃ a ∈ l.list, staged.overrides a = true) :
    ∃ a ∈ l'.list, a.name = staged.moduleName ∧ a.isActive = true ∧ a.version = staged.version ∧
      a.path = staged.diskImagePath ∧ a.hasClasspathJar = staged.hasClassPathJars := by
  induction stageds generalizing l pre with
  | nil => exact absurd hsplit.symm (List.append_ne_nil_of_right_ne_nil _ (List.cons_ne_nil _ _))
  | cons s stageds ih =>
    obtain ⟨l₁, h₁, hrest⟩ := foldlM_cons_eq_ok h
    obtain ⟨t, -, hl₁⟩ := overrideStagedApex_eq_ok hwf h₁
    cases pre with
    | nil =>
      obtain ⟨rfl, rfl⟩ := List.cons.inj hsplit
      obtain ⟨a, ha, hov⟩ := hactive
      have hmem := apply_mem_overriddenList s t l.list ha
      rw [← hl₁] at hmem
      have hname : s.moduleName ∉ stageds.map StagedApexInfo.moduleName := by
        rw [List.mem_map]
        rintro ⟨s', hs', heq⟩
        exact hlast s' hs' heq
      have hkept := filter_of_foldlM (hwf.of_overriddenList hl₁) hrest hname
      have hmem' : s.apply t a ∈ l'.list.filter (fun b ↦ s.moduleName == b.name) := by
        rw [hkept, List.mem_filter, (apply_of_overrides hov t).1, beq_self_eq_true]
        exact ⟨hmem, rfl⟩
      exact ⟨_, (List.mem_filter.1 hmem').1, apply_of_overrides hov t⟩
    | cons s' pre =>
      obtain ⟨rfl, hsplit'⟩ := List.cons.inj hsplit
      have hactive₁ : ∃ a ∈ l₁.list, staged.overrides a = true := by
        have hpos : 0 < l.list.countP (fun a ↦ staged.moduleName == a.name && a.isActive) :=
          List.countP_pos_iff.2 hactive
        rw [← countP_active_overriddenList s t l.list, ← hl₁] at hpos
        exact List.countP_pos_iff.1 hpos
      exact ih (hwf.of_overriddenList hl₁) hrest hsplit' hactive₁

end Sequence

/-- Every sequence of `override_staged_apex` calls that return `Ok` on a well-formed list leaves
it well formed; keeps every factory entry, as an inactive copy when it was the active entry of a
staged module; leaves the entries of the modules no call names as they were; and leaves the
active entry of each staged module with the version, path and classpath flag of the last staged
APEX of that module. -/
theorem overrideStagedApex_seq {l l' : ApexInfoList} {stageds : List StagedApexInfo}
    (hwf : l.WellFormed)
    (h : stageds.foldlM (fun l staged ↦ l.overrideStagedApex lastUpdated staged) l = .ok l') :
    l'.WellFormed ∧
      (∀ a ∈ l.list, a.isFactory = true →
        (if a.isActive = true ∧ a.name ∈ stageds.map StagedApexInfo.moduleName then
          { a with isActive := false } else a) ∈ l'.list) ∧
      (∀ name ∉ stageds.map StagedApexInfo.moduleName,
        l'.list.filter (fun a ↦ name == a.name) = l.list.filter (fun a ↦ name == a.name)) ∧
      (∀ pre staged post, stageds = pre ++ staged :: post →
        (∀ s ∈ post, s.moduleName ≠ staged.moduleName) →
        (∃ a ∈ l.list, staged.overrides a = true) →
        ∃ a ∈ l'.list, a.name = staged.moduleName ∧ a.isActive = true ∧
          a.version = staged.version ∧ a.path = staged.diskImagePath ∧
          a.hasClasspathJar = staged.hasClassPathJars) :=
  ⟨wellFormed_of_foldlM hwf h, fun _ ha hfac ↦ factory_mem_of_foldlM hwf h ha hfac,
    fun _ hname ↦ filter_of_foldlM hwf h hname,
    fun _ _ _ hsplit hlast hactive ↦ active_of_foldlM hwf h hsplit hlast hactive⟩

/-- The active factory APEX `foo` of the source's test, staged twice. -/
theorem overrideStagedApex_seq_twice :
    ApexInfoList.WellFormed ⟨[⟨"foo", 1, "foo.apex", false, 0, true, true⟩]⟩ ∧
    ∃ l' : ApexInfoList, ([⟨"foo", "staged.apex", 2, false⟩, ⟨"foo", "staged2.apex", 3, true⟩] :
        List StagedApexInfo).foldlM
        (fun l staged ↦ l.overrideStagedApex (fun _ ↦ (.ok 100 : Except Empty Nat)) staged)
          (⟨[⟨"foo", 1, "foo.apex", false, 0, true, true⟩]⟩ : ApexInfoList) = .ok l' ∧
      l'.list = [⟨"foo", 3, "staged2.apex", true, 100, false, true⟩,
        ⟨"foo", 1, "foo.apex", false, 0, true, false⟩] ∧
      l'.WellFormed ∧
      (∀ a ∈ [(⟨"foo", 1, "foo.apex", false, 0, true, true⟩ : ApexInfo)], a.isFactory = true →
        (if a.isActive = true ∧ a.name ∈ ([⟨"foo", "staged.apex", 2, false⟩,
            ⟨"foo", "staged2.apex", 3, true⟩] : List StagedApexInfo).map StagedApexInfo.moduleName
          then { a with isActive := false } else a) ∈ l'.list) ∧
      (∀ name ∉ ([⟨"foo", "staged.apex", 2, false⟩, ⟨"foo", "staged2.apex", 3, true⟩] :
          List StagedApexInfo).map StagedApexInfo.moduleName,
        l'.list.filter (fun a ↦ name == a.name) =
        [(⟨"foo", 1, "foo.apex", false, 0, true, true⟩ : ApexInfo)].filter
          (fun a ↦ name == a.name)) ∧
      (∀ pre staged post, ([⟨"foo", "staged.apex", 2, false⟩, ⟨"foo", "staged2.apex", 3, true⟩] :
          List StagedApexInfo) = pre ++ staged :: post →
        (∀ s ∈ post, s.moduleName ≠ staged.moduleName) →
        (∃ a ∈ [(⟨"foo", 1, "foo.apex", false, 0, true, true⟩ : ApexInfo)],
          staged.overrides a = true) →
        ∃ a ∈ l'.list, a.name = staged.moduleName ∧ a.isActive = true ∧
          a.version = staged.version ∧ a.path = staged.diskImagePath ∧
          a.hasClasspathJar = staged.hasClassPathJars) := by
  have hwf : ApexInfoList.WellFormed ⟨[⟨"foo", 1, "foo.apex", false, 0, true, true⟩]⟩ :=
    ⟨fun _ ↦ List.countP_le_length, fun _ ↦ List.countP_le_length⟩
  exact ⟨hwf, _, rfl, rfl, @overrideStagedApex_seq Empty (fun _ ↦ .ok 100) _ _ _ hwf rfl⟩

end Virtualization.VirtualizationService
