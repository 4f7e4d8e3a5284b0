import Mathlib.Data.List.TakeDrop
import RecordWire.CommandLine.Run

/-!
What arguments that are accepted say. A value comes from an option that has read it, from an option
whose value is two dashes, from a slot, or from the name of a command; so what holds of all these
holds of every value. In particular the level of the log is one that can be asked for, unless it was
asked for with two dashes.
-/

namespace RecordWire.CommandLine

section

variable {P : Text → Option Text → Prop}

def OptionSpec.Gives (P : Text → Option Text → Prop) (o : OptionSpec) : Prop :=
  ∀ key read?, o.kind = .value key read? → P key none ∧ ∀ t v, read? t = some v → P key (some v)

def Slot.Gives (P : Text → Option Text → Prop) : Slot → Prop
  | .required key | .optional key _ => ∀ value?, P key value?
  | .command => True

def Found.All (P : Text → Option Text → Prop) (f : Found) : Prop := ∀ e ∈ f.values, P e.1 e.2

def Words.AreOf (options : List OptionSpec) (words : Words) : Prop :=
  ∀ w ∈ words, ∀ given, w.2 = .option (some given) → given.spec ∈ options

theorem Words.AreOf.mono {options : List OptionSpec} {words rest : Words} (h : words.AreOf options)
    (hr : rest ⊆ words) : rest.AreOf options :=
  fun w hw => h w (hr hw)

section

variable {options : List OptionSpec} {arg name : Text} {attached : Attached} {given : Given}

theorem mem_of_givenAs? (h : givenAs? options name attached = some given) :
    given.spec ∈ options := by
  obtain ⟨o, ho, rfl⟩ := Option.map_eq_some_iff.1 h
  exact List.mem_of_find?_eq_some ho

theorem mem_of_candidates (h : given ∈ candidates options arg) : given.spec ∈ options := by
  have hnamed : ∀ p ∈ options.flatMap fun o => o.names.map fun name => (o, name), p.1 ∈ options := by
    intro p hp
    obtain ⟨o, ho, hp⟩ := List.mem_flatMap.1 hp
    obtain ⟨name, -, rfl⟩ := List.mem_map.1 hp
    exact ho
  unfold candidates at h
  dsimp only at h
  split at h
  · split at h
    · obtain ⟨p, hp, h⟩ := List.mem_filterMap.1 h
      split at h
      · cases h
        exact hnamed p hp
      · cases h
    · obtain ⟨p, hp, h⟩ := List.mem_filterMap.1 h
      split at h
      · cases h
        exact hnamed p hp
      · split at h
        · cases h
          exact hnamed p hp
        · cases h
  · cases h

theorem mem_of_classify (h : classify options arg = .ok (.option (some given))) :
    given.spec ∈ options := by
  revert h
  fun_cases classify options arg with
  | case2 _ g hg =>
    rintro ⟨⟩
    exact mem_of_givenAs? hg
  | case4 _ _ _ _ _ _ g hg =>
    rintro ⟨⟩
    exact mem_of_givenAs? hg
  | case5 _ _ _ _ _ _ _ g hg =>
    rintro ⟨⟩
    exact mem_of_candidates (hg ▸ List.mem_singleton_self _)
  | _ => rintro ⟨⟩

theorem areOf_classifyAll {args : List Text} {words : Words}
    (h : classifyAll options args = .ok words) : words.AreOf options := by
  induction args generalizing words with
  | nil =>
    cases h
    exact List.forall_mem_nil _
  | cons arg args ih =>
    rw [classifyAll] at h
    split at h
    · cases h
      refine List.forall_mem_cons.2 ⟨by simp, fun w hw => ?_⟩
      obtain ⟨a, -, rfl⟩ := List.mem_map.1 hw
      simp
    · split at h
      · cases h
      · rename_i word hword
        obtain ⟨rest, hrest, rfl⟩ := map_eq_ok_iff.1 h
        refine List.forall_mem_cons.2 ⟨fun g hg => ?_, ih hrest⟩
        obtain rfl : word = .option (some g) := hg
        exact mem_of_classify hword

end

section

variable {options : List OptionSpec} {slots left : List Slot} {sub : Subcommand} {words rest : Words}
  {f f' : Found}

theorem Found.all_nil : ({} : Found).All P := List.forall_mem_nil _

theorem Found.All.set {key : Text} {value? : Option Text} (h : f.All P) (hv : P key value?) :
    (f.set key value?).All P :=
  List.forall_mem_cons.2 ⟨hv, h⟩

theorem all_of_setOption {o : OptionSpec} {key value : Text} {read? : Text → Option Text}
    (ho : o.Gives P) (hk : o.kind = .value key read?) (hf : f.All P)
    (h : setOption key read? value f = .ok f') : f'.All P := by
  obtain ⟨hnone, hsome⟩ := ho key read? hk
  unfold setOption at h
  split at h
  · cases h
    exact hf.set hnone
  · split at h
    · rename_i v hv
      cases h
      exact hf.set (hsome _ v hv)
    · cases h

theorem Found.All.leave (h : f.All P) (args : List Text) : (f.leave args).All P := h

theorem all_of_applyOption {given : Given} (ho : given.spec.Gives P) (hf : f.All P)
    (h : applyOption options given words f = .ok (rest, f')) : rest ⊆ words ∧ f'.All P := by
  revert h
  fun_cases applyOption options given words f with
  | case4 _ _ _ _ _ hk | case5 _ _ _ _ _ hk =>
    intro h
    obtain ⟨g, hg, he⟩ := map_eq_ok_iff.1 h
    cases he
    exact ⟨List.Subset.refl _, all_of_setOption ho hk hf hg⟩
  | case6 _ _ _ hk =>
    intro h
    obtain ⟨g, hg, he⟩ := map_eq_ok_iff.1 h
    cases he
    exact ⟨List.subset_cons_self _ _, all_of_setOption ho hk hf hg⟩
  | _ => rintro ⟨⟩

theorem subset_of_span {α : Type} {p : α → Bool} {xs ys zs : List α} (h : xs.span p = (ys, zs)) :
    zs ⊆ xs := by
  rw [List.span_eq_takeWhile_dropWhile] at h
  cases h
  exact (List.dropWhile_suffix p).subset

theorem subset_of_take? {slot : Slot} {taken : Words} (h : slot.take? words = some (taken, rest)) :
    rest ⊆ words := by
  unfold Slot.take? at h
  split at h
  rename_i before behind hspan
  have hbehind := subset_of_span hspan
  split at h
  · cases h
    exact List.nil_subset _
  · cases h
  · rename_i arg more _
    dsimp only at h
    cases h
    have hmore : (spanDashes more).2 ⊆ more := subset_of_span rfl
    exact List.Subset.trans (List.subset_cons_of_subset _ hmore) hbehind
  · cases h
    exact hbehind
  · cases h

theorem all_of_apply {slot : Slot} {taken : Words} (hs : slot.Gives P)
    (hsub : ∀ args g, sub args = .ok g → g.All P) (hf : f.All P)
    (h : slot.apply sub taken f = .ok f') : f'.All P := by
  cases slot with
  | required key | optional key default =>
    cases h
    exact hf.set (hs _)
  | command =>
    obtain ⟨g, hg, rfl⟩ := map_eq_ok_iff.1 h
    exact List.forall_mem_append.2 ⟨hsub _ g hg, hf⟩

theorem all_of_fillSlots (hs : ∀ slot ∈ slots, slot.Gives P)
    (hsub : ∀ args g, sub args = .ok g → g.All P) (hf : f.All P)
    (h : fillSlots sub slots words f = .ok (left, rest, f')) :
    left ⊆ slots ∧ rest ⊆ words ∧ f'.All P := by
  induction slots generalizing words f with
  | nil =>
    cases h
    exact ⟨List.Subset.refl _, List.Subset.refl _, hf⟩
  | cons slot slots ih =>
    obtain ⟨hslot, hslots⟩ := List.forall_mem_cons.1 hs
    rw [fillSlots] at h
    split at h
    · cases h
      exact ⟨List.Subset.refl _, List.Subset.refl _, hf⟩
    · rename_i taken behind htake
      split at h
      · cases h
      · rename_i g hg
        obtain ⟨hl, hr, hall⟩ := ih hslots (all_of_apply hslot hsub hf hg) h
        exact ⟨List.subset_cons_of_subset _ hl, List.Subset.trans hr (subset_of_take? htake), hall⟩

theorem all_of_scan (ho : ∀ o ∈ options, o.Gives P)
    (hsub : ∀ args g, sub args = .ok g → g.All P) (fuel : Nat)
    (hs : ∀ slot ∈ slots, slot.Gives P) (hw : words.AreOf options) (hf : f.All P)
    (h : scan options sub fuel slots words f = .ok (left, f')) : f'.All P := by
  induction fuel generalizing slots words f with
  | zero =>
    cases h
    exact hf
  | succ fuel ih =>
    unfold scan at h
    split at h
    · rename_i arg given? behind
      obtain ⟨hfirst, hbehind⟩ := List.forall_mem_cons.1 hw
      split at h
      · exact ih hs hbehind (hf.leave _) h
      · rename_i given
        split at h
        · cases h
        · rename_i rest g happly
          obtain ⟨hr, hall⟩ := all_of_applyOption (ho _ (hfirst given rfl)) hf happly
          exact ih hs (Words.AreOf.mono hbehind hr) hall h
    · split at h
      · cases h
      · rename_i more rest g hfill
        obtain ⟨hl, hr, hall⟩ := all_of_fillSlots hs hsub hf hfill
        generalize hp : (if rest.length < words.length then (([] : Words), rest)
          else rest.span fun w => !w.2.isOption) = p at h
        obtain ⟨skipped, behind⟩ := p
        have hbehind : behind ⊆ rest := by
          split at hp
          · cases hp
            exact List.Subset.refl _
          · exact subset_of_span hp
        dsimp only at h
        split at h
        · cases h
          exact hall.leave _
        · split at h
          · exact ih (fun slot hslot => hs slot (hl hslot)) (hw.mono (List.Subset.trans hbehind hr))
              (hall.leave _) h
          · cases h
            exact hall.leave _

theorem all_of_parse {args : List Text} (ho : ∀ o ∈ options, o.Gives P)
    (hsub : ∀ args g, sub args = .ok g → g.All P) (hs : ∀ slot ∈ slots, slot.Gives P)
    (h : parse options slots sub args = .ok f) : f.All P := by
  unfold parse at h
  split at h
  · cases h
  · rename_i words hwords
    split at h
    · cases h
    · rename_i left g hscan
      dsimp only at h
      split at h
      · cases h
      · cases h
        exact all_of_scan ho hsub _ hs (areOf_classifyAll hwords) Found.all_nil hscan

end

end

namespace Invocation

/-- A value for the level of the log is one of the levels that can be asked for. -/
def IsLevel (key : Text) (value? : Option Text) : Prop :=
  key = "level" → ∀ level, value? = some level → level ∈ levels

theorem isLevel_of_ne {key : Text} (h : key ≠ "level") (value? : Option Text) :
    IsLevel key value? :=
  fun hk => absurd hk h

theorem gives_of_ne {names : List Text} {key : Text} {read? : Text → Option Text}
    (h : key ≠ "level") : OptionSpec.Gives IsLevel ⟨names, .value key read?⟩ := by
  rintro _ _ ⟨⟩
  exact ⟨isLevel_of_ne h _, fun _ _ _ => isLevel_of_ne h _⟩

theorem gives_helpOption : helpOption.Gives IsLevel := by
  rintro _ _ ⟨⟩

theorem mem_of_readLevel? {t level : Text} (h : readLevel? t = some level) : level ∈ levels := by
  simp only [readLevel?] at h
  split at h
  · rename_i hl
    cases h
    exact List.contains_iff_mem.1 hl
  · cases h

theorem gives_options : ∀ o ∈ options, o.Gives IsLevel := by
  simp only [options, List.forall_mem_cons]
  refine ⟨gives_helpOption, gives_of_ne (by decide), ?_, List.forall_mem_nil _⟩
  rintro _ _ ⟨⟩
  refine ⟨fun _ _ h => ?_, fun t v hv _ level hl => ?_⟩
  · cases h
  · cases hl
    exact mem_of_readLevel? hv

theorem all_of_subcommand (args : List Text) (f : Found) (h : subcommand args = .ok f) :
    f.All IsLevel := by
  have hrun : ∀ (name : Text) (more : List OptionSpec) (slots : List Slot) (args : List Text),
      (∀ o ∈ more, o.Gives IsLevel) → (∀ slot ∈ slots, slot.Gives IsLevel) →
      (parse (helpOption :: more) slots noSubcommand args).map (Found.set "command" (some name)) =
        .ok f → f.All IsLevel := by
    intro name more slots args ho hs h
    obtain ⟨g, hg, rfl⟩ := map_eq_ok_iff.1 h
    have hall := all_of_parse (List.forall_mem_cons.2 ⟨gives_helpOption, ho⟩)
      (fun _ _ h => by cases h) hs hg
    exact hall.set (isLevel_of_ne (by decide) _)
  have hinput : inputSlot.Gives IsLevel := fun _ => isLevel_of_ne (by decide) _
  have hschemas : (Slot.required "schemas").Gives IsLevel := fun _ => isLevel_of_ne (by decide) _
  have htype : (Slot.required "type").Gives IsLevel := fun _ => isLevel_of_ne (by decide) _
  have htarget : ∀ slot ∈ targetSlots ++ [inputSlot], slot.Gives IsLevel := by
    simp [targetSlots, hschemas, htype, hinput]
  unfold subcommand at h
  split at h
  · cases h
  · dsimp only at h
    split at h
    · exact hrun _ _ _ _ (List.forall_mem_nil _) (List.forall_mem_singleton.2 hschemas) h
    · split at h
      · exact hrun _ _ _ _ (List.forall_mem_singleton.2 (gives_of_ne (by decide))) htarget h
      · split at h
        · exact hrun _ _ _ _ (List.forall_mem_nil _) htarget h
        · cases h

theorem mem_levels_of_ofArguments {args : List Text} {i : Invocation}
    (h : ofArguments args = .ok i) {level : Text} (hl : i.level? = some level) :
    level ∈ levels := by
  unfold ofArguments at h
  split at h
  · cases h
  · rename_i f hf
    split at h
    · cases h
      have hslots : ∀ slot ∈ [Slot.command], slot.Gives IsLevel := by simp [Slot.Gives]
      have hall := all_of_parse gives_options all_of_subcommand hslots hf
      simp only [ofValues] at hl
      cases hv : f.values.lookup (Text.ofString "level") with
      | none =>
        rw [hv] at hl
        cases hl
        decide
      | some value? =>
        rw [hv] at hl
        obtain ⟨_, _, hvalues, -⟩ := List.lookup_eq_some_iff.1 hv
        exact hall (_, value?) (hvalues ▸ List.mem_append_right _ List.mem_cons_self) rfl level hl
    · cases h

end Invocation

theorem exists_logLevel {args : List Text} {i : Invocation}
    (h : Invocation.ofArguments args = .ok i) (hl : i.level? ≠ none) :
    ∃ level, logLevel i = .ok level := by
  obtain ⟨level, hlevel⟩ := Option.ne_none_iff_exists'.1 hl
  have hknown : ∀ level ∈ Invocation.levels,
      ((LogLevel.resolve (.text level)).map LogLevel.number).isOk = true := by
    decide
  have hok := hknown level (Invocation.mem_levels_of_ofArguments h hlevel)
  rw [logLevel, hlevel, Option.map_some, Option.getD_some]
  cases hn : (LogLevel.resolve (.text level)).map LogLevel.number with
  | ok n => exact ⟨n, rfl⟩
  | error e =>
    rw [hn] at hok
    cases hok

end RecordWire.CommandLine
