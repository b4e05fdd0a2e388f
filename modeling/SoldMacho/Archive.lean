import SoldMacho.Precedence
import SoldMacho.MarkLive

/-!
# Archive extraction

The driver resolves every file, runs the `mark_live_objects` worklist from the live
objects, clears the symbols of the objects still dead, and resolves the live objects
and the dylibs again.  The main result says what that sequence guarantees: every symbol
an undefined extern entry of a live object names is owned as soon as some input file
defines it, and no dead object owns a symbol.  It needs every priority below
`2 ^ 24`: a larger priority pushes a definition's rank to the unowned rank `7 << 24` or
past it, and the definition never takes its symbol.
-/

namespace SoldMacho

/-- File `g` defines symbol `y`: one of its resolution updates is a candidate for `y`. -/
def Defines (link : Link) (g y : Nat) : Prop :=
  ∃ u ∈ fileUpdates link g, u.target = y ∧ u.defines = true

theorem mem_fileUpdates {link : Link} {g : Nat} {u : Update} (hu : u ∈ fileUpdates link g) :
    u.file = g ∧ (u.defines = true → u.target ∈ (link.files g).syms) := by
  unfold fileUpdates at hu
  cases h : link.files g with
  | object obj =>
    rw [h] at hu
    obtain ⟨e, he, rfl⟩ := List.mem_map.mp hu
    refine ⟨rfl, fun hd => ?_⟩
    have hx : e.msym.isExtern = true := by
      simp only [Update.defines, ObjectFile.skips, Bool.not_or, Bool.not_not, Bool.and_eq_true] at hd
      exact hd.1
    simp only [InputFile.syms, List.mem_map, List.mem_filter]
    exact ⟨e, ⟨he, by simp [ObjectFile.interned, hx]⟩, rfl⟩
  | dylib d =>
    rw [h] at hu
    obtain ⟨p, hp, rfl⟩ := List.mem_map.mp hu
    exact ⟨rfl, fun _ => by simp only [InputFile.syms, List.mem_map]; exact ⟨p, hp, rfl⟩⟩

/-- Owners stay within a set of files closed under the run's winning updates. -/
theorem runUpdates_owner {link : Link} {us : List Update} {tab tab' : SymTab}
    (Q : Nat → Nat → Prop) (hus : ∀ u ∈ us, u.defines = true → Q u.file u.target)
    (h : runUpdates link us tab = .ok tab')
    (hQ : ∀ y g, (tab y).file = some g → Q g y) : ∀ y g, (tab' y).file = some g → Q g y := by
  refine runUpdates_invariant (fun t => ∀ y g, (t y).file = some g → Q g y)
    (fun u hu t t' ht hrun y g hg => ?_) h hQ
  by_cases hc : u.target = y ∧ u.defines = true
  · obtain ⟨rfl, hd⟩ := hc
    rcases Update.run_target hrun hd with ⟨-, hf, -⟩ | ⟨-, hcl⟩
    · rw [hf] at hg
      cases hg
      exact hus u hu hd
    · simp only [Symbol.claim, Prod.mk.injEq] at hcl
      exact ht _ g (hcl.1 ▸ hg)
  · exact ht y g (Update.run_frame hrun hc ▸ hg)

theorem clearSymbols_apply (link : Link) (h : Nat) (tab : SymTab) (y : Nat) :
    clearSymbols link h tab y =
      if (tab y).file = some h ∧ y ∈ (link.files h).syms then {} else tab y := by
  unfold clearSymbols
  induction (link.files h).syms generalizing tab with
  | nil => simp
  | cons s l ih =>
    rw [List.foldl_cons, ih]
    by_cases hys : y = s
    · subst hys
      by_cases hf : (tab y).file = some h <;> simp [hf]
    · -- clearing `s` leaves `y` alone
      have hy : (if (tab s).file = some h then Function.update tab s {} else tab) y = tab y := by
        split <;> simp [Function.update_noteq hys]
      simp [hy, hys]

/-- After clearing the files `D`, a symbol still owned by `g` had that owner before, and
`g` is not in `D` unless the symbol is not one of `g`'s. -/
theorem clearAll_owner {link : Link} {D : List Nat} {tab : SymTab} {y g : Nat}
    (h : (clearAll link D tab y).file = some g) :
    (tab y).file = some g ∧ (g ∉ D ∨ y ∉ (link.files g).syms) := by
  induction D generalizing tab with
  | nil => exact ⟨h, Or.inl (List.not_mem_nil g)⟩
  | cons d D ih =>
    obtain ⟨h1, h2⟩ := @ih (clearSymbols link d tab) h
    rw [clearSymbols_apply] at h1
    by_cases hc : (tab y).file = some d ∧ y ∈ (link.files d).syms
    · rw [if_pos hc] at h1
      cases h1
    · rw [if_neg hc] at h1
      refine ⟨h1, ?_⟩
      by_cases hgd : g = d
      · subst hgd
        exact Or.inr fun hy => hc ⟨h1, hy⟩
      · rcases h2 with h2 | h2
        · exact Or.inl (by simp [hgd, h2])
        · exact Or.inr h2

/-- Clearing keeps a symbol whose owner is not cleared. -/
theorem clearAll_keep {link : Link} {D : List Nat} {tab : SymTab} {y g : Nat}
    (hy : (tab y).file = some g) (hg : g ∉ D) : (clearAll link D tab y).file = some g := by
  induction D generalizing tab with
  | nil => exact hy
  | cons d D ih =>
    refine @ih (clearSymbols link d tab) ?_ (fun h => hg (List.mem_cons_of_mem _ h))
    rw [clearSymbols_apply, if_neg (fun hc => hg (by simp [Option.some_injective _ (hy.symm.trans hc.1)]))]
    exact hy

/-- The extraction guarantee of resolve, mark-live, clear, resolve. -/
theorem archive_extraction (files : Nat → InputFile) (live0 ord1 ord2 : List Nat)
    (hprio : ∀ f ∈ ord1, (files f).priority < 2 ^ 24) {tab1 tab3 : SymTab} {s : MarkState}
    (hr1 : resolveAll ⟨files, fun g => decide (g ∈ live0)⟩ ord1 .fresh = .ok tab1)
    (hm : Relation.ReflTransGen (MarkStep files tab1) (MarkState.init files live0) s)
    (hdone : s.runs = [])
    (hord2 : ∀ f ∈ ord2, s.alive f = true ∨ (files f).isDylib = true)
    (hr2 : resolveAll ⟨files, s.alive⟩ ord2
      (clearAll ⟨files, s.alive⟩ (ord1.filter fun f => !(files f).isDylib && !s.alive f) tab1)
        = .ok tab3) :
    (∀ f obj e, s.alive f = true → files f = .object obj → e ∈ obj.entries →
        e.msym.isExtern = true → e.msym.isUndef = true →
        (∃ g ∈ ord1, Defines ⟨files, fun g => decide (g ∈ live0)⟩ g e.sym) →
        (tab3 e.sym).file.isSome) ∧
      ∀ y g, (tab3 y).file = some g → s.alive g = true ∨ (files g).isDylib = true := by
  set link0 : Link := ⟨files, fun g => decide (g ∈ live0)⟩
  set link1 : Link := ⟨files, s.alive⟩
  set D := ord1.filter fun f => !(files f).isDylib && !s.alive f
  rw [resolveAll_eq] at hr1 hr2
  -- after the first round, owners are files of `ord1` holding the symbol
  have hown1 : ∀ y g, (tab1 y).file = some g → g ∈ ord1 ∧ y ∈ (files g).syms := by
    refine runUpdates_owner (fun g y => g ∈ ord1 ∧ y ∈ (files g).syms)
      (fun u hu hd => ?_) hr1 (fun y g h => by simp [SymTab.fresh] at h)
    obtain ⟨g, hg, hu⟩ := List.mem_flatMap.mp hu
    obtain ⟨rfl, hy⟩ := mem_fileUpdates hu
    exact ⟨hg, hy hd⟩
  have hI := markInv_reachable hm
  refine ⟨fun f obj e hf hobj he hx hu ⟨g, hg, u, hgu, hut, hud⟩ => ?_, fun y g hy => ?_⟩
  · -- the symbol is owned after the first round, its owner is needed, hence live
    have hrank : u.rank link0 < 7 * 2 ^ 24 := by
      obtain ⟨rfl, -⟩ := mem_fileUpdates hgu
      cases u <;> simp only [Update.rank] <;> exact @getRank_lt_unowned link0 _ _ _ (hprio _ hg)
    have h1 : (tab1 e.sym).file.isSome :=
      runUpdates_owned ⟨u, List.mem_flatMap.mpr ⟨g, hg, hgu⟩, hut, hud, hrank⟩ hr1
    obtain ⟨o, ho⟩ := Option.isSome_iff_exists.mp h1
    have hlive : s.alive o = true := (hI.alive_iff_needed hdone o).mpr
      (.owner (hI.sound f hf) hobj he hx (by simp [keep, hu]) ho)
    have h2 := @clearAll_keep link1 D _ _ _ ho (fun hoD => by
      have := (List.mem_filter.mp hoD).2
      simp [hlive] at this)
    exact runUpdates_invariant (fun t => (t e.sym).file.isSome)
      (fun v _ _ _ hs hrun => Update.run_owned hrun hs) hr2 (by simp [h2])
  · -- owners after the clear are not dead objects, and the second round adds none
    refine runUpdates_owner (fun g _ => s.alive g = true ∨ (files g).isDylib = true)
      (fun u hu _ => ?_) hr2 (fun y g hy => ?_) y g hy
    · obtain ⟨g, hg, hu⟩ := List.mem_flatMap.mp hu
      obtain ⟨rfl, -⟩ := mem_fileUpdates hu
      exact hord2 _ hg
    · obtain ⟨h1, h2⟩ := clearAll_owner hy
      obtain ⟨hg1, hgy⟩ := hown1 y g h1
      rcases h2 with h2 | h2
      · by_contra hc
        push_neg at hc
        exact h2 (List.mem_filter.mpr ⟨hg1, by simp [hc.1, hc.2]⟩)
      · exact absurd hgy h2

/-- The symbol table after the first round on the archive example of `MarkLive`. -/
def archiveRound1 : SymTab :=
  match resolveAll ⟨archiveFiles, fun g => decide (g ∈ [0])⟩ [0, 1] .fresh with
  | .ok t => t
  | .error _ => .fresh

theorem archive_extraction_member :
    ∃ s tab3,
      Relation.ReflTransGen (MarkStep archiveFiles archiveRound1)
        (MarkState.init archiveFiles [0]) s ∧ s.runs = [] ∧
      resolveAll ⟨archiveFiles, s.alive⟩ [0, 1]
        (clearAll ⟨archiveFiles, s.alive⟩
          ([0, 1].filter fun f => !(archiveFiles f).isDylib && !s.alive f) archiveRound1)
        = .ok tab3 ∧
      (tab3 0).file.isSome := by
  have hm : Relation.ReflTransGen (MarkStep archiveFiles archiveRound1)
      (MarkState.init archiveFiles [0])
      { alive := Function.update (fun g => decide (g ∈ [0])) 1 true, runs := [], fed := [1] } :=
    .tail (.tail (.tail (.tail .refl
      (@MarkStep.visit _ _ _ [] [] 0 _ [] rfl))
      (@MarkStep.finish _ _ _ [] [(1, liveEntries archiveFiles 1)] 0 rfl))
      (@MarkStep.visit _ _ _ [] [] 1 _ [] rfl))
      (@MarkStep.finish _ _ _ [] [] 1 rfl)
  refine ⟨_, _, hm, rfl, rfl, ?_⟩
  exact (archive_extraction archiveFiles [0] [0, 1] [0, 1] (by decide) rfl hm rfl (by decide)
    rfl).1 0 _ _ rfl rfl (List.mem_singleton_self _) rfl rfl
    ⟨1, by simp, .object 1 _ _, List.mem_singleton_self _, rfl, rfl⟩

/-- The archive example with the member's priority raised to `4 << 24`: its strong
definition ranks `7 << 24`, no better than unowned. -/
def farMemberFiles : Nat → InputFile
  | 0 => archiveFiles 0
  | _ => .object { priority := 4 <<< 24,
                   entries := [{ msym := { isExtern := true, type := .abs, value := 16 }, sym := 0 }] }

/-- The symbol table after the first round on `farMemberFiles`. -/
def farRound1 : SymTab :=
  match resolveAll ⟨farMemberFiles, fun g => decide (g ∈ [0])⟩ [0, 1] .fresh with
  | .ok t => t
  | .error _ => .fresh

/-- The member defines symbol 0, the live object needs it, and after the whole sequence
it is still unowned. -/
theorem archive_extraction_far_priority :
    Defines ⟨farMemberFiles, fun g => decide (g ∈ [0])⟩ 1 0 ∧
    ∃ tab1 s tab3,
      resolveAll ⟨farMemberFiles, fun g => decide (g ∈ [0])⟩ [0, 1] .fresh = .ok tab1 ∧
      Relation.ReflTransGen (MarkStep farMemberFiles tab1)
        (MarkState.init farMemberFiles [0]) s ∧ s.runs = [] ∧
      resolveAll ⟨farMemberFiles, s.alive⟩ [0]
        (clearAll ⟨farMemberFiles, s.alive⟩
          ([0, 1].filter fun f => !(farMemberFiles f).isDylib && !s.alive f) tab1)
        = .ok tab3 ∧
      (tab3 0).file = none := by
  have hm : Relation.ReflTransGen (MarkStep farMemberFiles farRound1)
      (MarkState.init farMemberFiles [0])
      { alive := fun g => decide (g ∈ [0]), runs := [], fed := [] } :=
    .tail (.tail .refl (@MarkStep.visit _ _ _ [] [] 0 _ [] rfl))
      (@MarkStep.finish _ _ _ [] [] 0 rfl)
  exact ⟨⟨.object 1 _ _, List.mem_singleton_self _, rfl, rfl⟩, farRound1, _, _, rfl, hm, rfl, rfl,
    rfl⟩

end SoldMacho
