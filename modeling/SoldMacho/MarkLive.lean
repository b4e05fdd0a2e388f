import SoldMacho.Rank
import Mathlib.Logic.Relation
import Mathlib.Data.List.Nodup

/-!
# Archive liveness: the `mark_live_objects` worklist

`ObjectFile::mark_live_objects` visits the extern entries of a live object; for an
entry that needs its symbol's owner (`keep`: undefined, or common while the owner's
definition is not), it exchanges the owner's `is_alive` to true and, if the exchange
found the owner dead and it is not a dylib, passes it to the feeder, which runs
`mark_live_objects` on it in turn.

Runs on different files interleave.  One loop iteration holds the symbol's lock and
does one atomic exchange, so it is one step here (`markEntry`), and `MarkStep` lets any
run in progress take the next step.  The symbol table does not change meanwhile.

The main result: in every state the worklist can end in, each file was fed at most
once, the fed files are exactly the objects whose `is_alive` went from false to true,
and the live files are the least set holding the initially live ones and closed under
`keep` (`Needed`).
-/

namespace SoldMacho

variable (files : Nat → InputFile) (tab : SymTab)

/-- The `keep` flag of `mark_live_objects`: the entry is undefined, or it is common
while the symbol's owner is not. -/
def keep (e : SymEntry) (sym : Symbol) : Bool :=
  e.msym.isUndef || (e.msym.isCommon && !sym.isCommon)

/-- The entries `mark_live_objects` visits on file `f`. -/
def liveEntries (f : Nat) : List SymEntry :=
  match files f with
  | .object obj => obj.entries
  | .dylib _ => []

/-- One iteration of the loop of `mark_live_objects` on entry `e`: the new `is_alive`
flags and the file passed to the feeder, if any. -/
def markEntry (alive : Nat → Bool) (e : SymEntry) : (Nat → Bool) × Option Nat :=
  if !e.msym.isExtern then (alive, none)
  else
    match (tab e.sym).file with
    | none => (alive, none)
    | some g =>
      if keep e (tab e.sym) && !alive g then
        (Function.update alive g true, if (files g).isDylib then none else some g)
      else (alive, none)

/-- A state of the worklist: the `is_alive` flags, the runs in progress (a file and the
entries its loop has still to visit), and the files fed so far, in order. -/
structure MarkState where
  alive : Nat → Bool
  runs : List (Nat × List SymEntry)
  fed : List Nat

/-- The state after the run `(f, e :: rest)`, standing between `pre` and `post`, visits
`e`; a fed file starts a run of its own. -/
def MarkState.visit (s : MarkState) (pre post : List (Nat × List SymEntry)) (f : Nat)
    (e : SymEntry) (rest : List SymEntry) : MarkState :=
  let r := markEntry files tab s.alive e
  { alive := r.1,
    runs := pre ++ (f, rest) :: post ++ r.2.toList.map fun g => (g, liveEntries files g),
    fed := s.fed ++ r.2.toList }

/-- The worklist before any run: one run on every initially live object. -/
def MarkState.init (live0 : List Nat) : MarkState where
  alive g := decide (g ∈ live0)
  runs := (live0.filter fun f => !(files f).isDylib).map fun f => (f, liveEntries files f)
  fed := []

/-- One step of any run in progress, or the end of a run. -/
inductive MarkStep : MarkState → MarkState → Prop
  | visit {s : MarkState} {pre post : List (Nat × List SymEntry)} {f : Nat} {e : SymEntry}
      {rest : List SymEntry} (hs : s.runs = pre ++ (f, e :: rest) :: post) :
      MarkStep s (s.visit files tab pre post f e rest)
  | finish {s : MarkState} {pre post : List (Nat × List SymEntry)} {f : Nat}
      (hs : s.runs = pre ++ (f, []) :: post) :
      MarkStep s { s with runs := pre ++ post }

/-- The least set of files holding the initially live ones and closed under `keep`:
the owner of a kept extern entry of a needed object is needed. -/
inductive Needed (live0 : List Nat) : Nat → Prop
  | live {g : Nat} : g ∈ live0 → Needed live0 g
  | owner {f g : Nat} {obj : ObjectFile} {e : SymEntry} : Needed live0 f →
      files f = .object obj → e ∈ obj.entries → e.msym.isExtern = true →
      keep e (tab e.sym) = true → (tab e.sym).file = some g → Needed live0 g

/-- Entry `e` no longer needs anything: its owner is live if `keep` asks for it. -/
def Sat (alive : Nat → Bool) (e : SymEntry) : Prop :=
  e.msym.isExtern = true → keep e (tab e.sym) = true → ∀ g, (tab e.sym).file = some g → alive g

/-- The worklist invariant. -/
structure MarkInv (live0 : List Nat) (s : MarkState) : Prop where
  init_alive : ∀ g ∈ live0, s.alive g = true
  sound : ∀ g, s.alive g = true → Needed files tab live0 g
  runs_live : ∀ p ∈ s.runs, s.alive p.1 = true ∧ (files p.1).isDylib = false ∧
    ∀ e ∈ p.2, e ∈ liveEntries files p.1
  pending : ∀ f, s.alive f = true → (files f).isDylib = false → ∀ e ∈ liveEntries files f,
    Sat tab s.alive e ∨ ∃ p ∈ s.runs, p.1 = f ∧ e ∈ p.2
  fed_nodup : s.fed.Nodup
  fed_iff : ∀ g, g ∈ s.fed ↔ g ∉ live0 ∧ s.alive g = true ∧ (files g).isDylib = false

variable {files tab}

theorem Sat.mono {a a' : Nat → Bool} {e : SymEntry} (h : Sat tab a e)
    (ha : ∀ g, a g = true → a' g = true) : Sat tab a' e :=
  fun hx hk g hg => ha g (h hx hk g hg)

theorem needed_object {f : Nat} (hf : (files f).isDylib = false) :
    ∃ obj, files f = .object obj ∧ liveEntries files f = obj.entries := by
  cases h : files f with
  | object obj => exact ⟨obj, rfl, by simp [liveEntries, h]⟩
  | dylib d => simp [h, InputFile.isDylib] at hf

theorem markInv_init (live0 : List Nat) : MarkInv files tab live0 (MarkState.init files live0) where
  init_alive g hg := by simp [MarkState.init, hg]
  sound g hg := .live (by simpa [MarkState.init] using hg)
  runs_live p hp := by
    obtain ⟨f, hf, rfl⟩ := List.mem_map.mp hp
    have := List.mem_filter.mp hf
    exact ⟨by simp [MarkState.init, this.1], by simpa using this.2, fun _ he => he⟩
  pending f hf hd e he := by
    refine Or.inr ⟨(f, liveEntries files f), List.mem_map.mpr ⟨f, ?_, rfl⟩, rfl, he⟩
    exact List.mem_filter.mpr ⟨by simpa [MarkState.init] using hf, by simp [hd]⟩
  fed_nodup := List.nodup_nil
  fed_iff g := by
    simp only [MarkState.init, List.not_mem_nil, false_iff, decide_eq_true_eq, not_and]
    exact fun h1 h2 => absurd h2 h1

/-- What one loop iteration does: nothing, with the entry already satisfied, or it
wakes the dead owner `g` of a kept entry, feeding it unless it is a dylib. -/
theorem markEntry_spec (alive : Nat → Bool) (e : SymEntry) :
    (markEntry files tab alive e = (alive, none) ∧ Sat tab alive e) ∨
      ∃ g, (tab e.sym).file = some g ∧ alive g = false ∧ e.msym.isExtern = true ∧
        keep e (tab e.sym) = true ∧
        markEntry files tab alive e =
          (Function.update alive g true, if (files g).isDylib then none else some g) := by
  unfold markEntry
  cases hx : e.msym.isExtern with
  | false => exact Or.inl ⟨rfl, fun h => by simp [hx] at h⟩
  | true =>
    cases hf : (tab e.sym).file with
    | none => exact Or.inl ⟨rfl, fun _ _ g hg => by rw [hf] at hg; cases hg⟩
    | some g =>
      simp only [Bool.not_true, Bool.false_eq_true, if_false]
      cases hk : keep e (tab e.sym) <;> cases ha : alive g
      · exact Or.inl ⟨rfl, fun _ h => by rw [hk] at h; cases h⟩
      · exact Or.inl ⟨rfl, fun _ h => by rw [hk] at h; cases h⟩
      · exact Or.inr ⟨g, rfl, ha, by simp, by simp, by simp⟩
      · exact Or.inl ⟨by simp, fun _ _ g' hg' => by rw [hf] at hg'; cases hg'; exact ha⟩

section Step

variable {live0 : List Nat} {s : MarkState} {pre post : List (Nat × List SymEntry)} {f : Nat}
  {e : SymEntry} {rest : List SymEntry}

/-- A run in progress, other than the one taking the step, is still in progress. -/
theorem mem_runs_of_mem (hs : s.runs = pre ++ (f, e :: rest) :: post)
    {p : Nat × List SymEntry} (hp : p ∈ pre ∨ p ∈ post) : p ∈ s.runs := by
  rw [hs]; rcases hp with hp | hp <;> simp [hp]

/-- After the run `(f, e :: rest)` visits `e`, an entry that was pending is satisfied (it
was `e`) or still pending, provided `e` is now satisfied. -/
theorem pending_after_visit {alive : Nat → Bool} (extra : List (Nat × List SymEntry))
    (hs : s.runs = pre ++ (f, e :: rest) :: post) (he : Sat tab alive e) {f' : Nat}
    {e' : SymEntry} (hp : ∃ p ∈ s.runs, p.1 = f' ∧ e' ∈ p.2) :
    Sat tab alive e' ∨ ∃ p ∈ pre ++ (f, rest) :: post ++ extra, p.1 = f' ∧ e' ∈ p.2 := by
  obtain ⟨p, hp, hpf, hep⟩ := hp
  rw [hs] at hp
  simp only [List.mem_append, List.mem_cons] at hp
  rcases hp with hp | rfl | hp
  · exact Or.inr ⟨p, by simp [hp], hpf, hep⟩
  · rcases List.mem_cons.mp hep with rfl | hep
    · exact Or.inl he
    · exact Or.inr ⟨(f, rest), by simp, hpf, hep⟩
  · exact Or.inr ⟨p, by simp [hp], hpf, hep⟩

/-- A visit that changes no flag keeps the invariant. -/
theorem markInv_visit_idle (hI : MarkInv files tab live0 s)
    (hs : s.runs = pre ++ (f, e :: rest) :: post) (he : Sat tab s.alive e) :
    MarkInv files tab live0 { alive := s.alive, runs := pre ++ (f, rest) :: post, fed := s.fed } where
  init_alive := hI.init_alive
  sound := hI.sound
  runs_live p hp := by
    have hrun := hI.runs_live (f, e :: rest) (by rw [hs]; simp)
    simp only [List.mem_append, List.mem_cons] at hp ⊢
    rcases hp with hp | rfl | hp
    · exact hI.runs_live p (mem_runs_of_mem hs (.inl hp))
    · exact ⟨hrun.1, hrun.2.1, fun e' he' => hrun.2.2 e' (List.mem_cons_of_mem _ he')⟩
    · exact hI.runs_live p (mem_runs_of_mem hs (.inr hp))
  pending f' ha hd e' he' := by
    rcases hI.pending f' ha hd e' he' with hsat | hp
    · exact Or.inl hsat
    · simpa using pending_after_visit [] hs he hp
  fed_nodup := hI.fed_nodup
  fed_iff := hI.fed_iff

/-- A visit that wakes the dead owner `g` of a kept entry keeps the invariant; `g`
starts a run and is fed, unless it is a dylib. -/
theorem markInv_visit_wake (hI : MarkInv files tab live0 s)
    (hs : s.runs = pre ++ (f, e :: rest) :: post) {g : Nat} (hg : (tab e.sym).file = some g)
    (hdead : s.alive g = false) (hx : e.msym.isExtern = true) (hk : keep e (tab e.sym) = true)
    {fedg : List Nat} (hfed : fedg = if (files g).isDylib then [] else [g]) :
    MarkInv files tab live0
      { alive := Function.update s.alive g true,
        runs := pre ++ (f, rest) :: post ++ fedg.map (fun g => (g, liveEntries files g)),
        fed := s.fed ++ fedg } := by
  have hrun := hI.runs_live (f, e :: rest) (by rw [hs]; simp)
  have hmono : ∀ h, s.alive h = true → Function.update s.alive g true h = true := by
    intro h hh
    rw [Function.update_apply]
    split <;> simp [hh]
  have hnew : ∀ h, Function.update s.alive g true h = true → h = g ∨ s.alive h = true := by
    intro h
    rw [Function.update_apply]
    split <;> simp_all
  have hsat : Sat tab (Function.update s.alive g true) e := by
    intro _ _ g' hg'
    rw [hg] at hg'
    cases hg'
    simp
  have hglive : g ∉ live0 := fun hl => by simp [hI.init_alive g hl] at hdead
  have hgfed : g ∉ s.fed := fun hf => by simp [(hI.fed_iff g).mp hf |>.2.1] at hdead
  have hfedg : ∀ h, h ∈ fedg ↔ h = g ∧ (files g).isDylib = false := by
    intro h
    subst hfed
    cases (files g).isDylib <;> simp
  refine { init_alive := fun h hh => hmono h (hI.init_alive h hh)
           sound := fun h hh => ?sound
           runs_live := fun p hp => ?runs_live
           pending := fun f' ha hd e' he' => ?pending
           fed_nodup := ?fed_nodup
           fed_iff := fun h => ?fed_iff }
  case sound =>
    rcases hnew h hh with rfl | hh
    · obtain ⟨obj, hobj, hent⟩ := needed_object hrun.2.1
      exact .owner (hI.sound f hrun.1) hobj (hent ▸ hrun.2.2 e (List.mem_cons_self _ _)) hx hk hg
    · exact hI.sound h hh
  case runs_live =>
    simp only [List.mem_append, List.mem_cons, List.mem_map] at hp
    rcases hp with (hp | rfl | hp) | ⟨g', hg', rfl⟩
    · obtain ⟨h1, h2, h3⟩ := hI.runs_live p (mem_runs_of_mem hs (.inl hp))
      exact ⟨hmono _ h1, h2, h3⟩
    · exact ⟨hmono _ hrun.1, hrun.2.1, fun e' he' => hrun.2.2 e' (List.mem_cons_of_mem _ he')⟩
    · obtain ⟨h1, h2, h3⟩ := hI.runs_live p (mem_runs_of_mem hs (.inr hp))
      exact ⟨hmono _ h1, h2, h3⟩
    · obtain ⟨rfl, hgd⟩ := (hfedg g').mp hg'
      exact ⟨by simp, hgd, fun _ he' => he'⟩
  case pending =>
    rcases hnew f' ha with rfl | ha
    · refine Or.inr ⟨(f', liveEntries files f'), ?_, rfl, he'⟩
      simp only [List.mem_append, List.mem_map]
      exact Or.inr ⟨f', (hfedg f').mpr ⟨rfl, hd⟩, rfl⟩
    · rcases hI.pending f' ha hd e' he' with hs' | hp
      · exact Or.inl (hs'.mono hmono)
      · exact pending_after_visit _ hs hsat hp
  case fed_nodup =>
    refine hI.fed_nodup.append ?_ fun a ha hb => ?_
    · subst hfed; cases (files g).isDylib <;> simp
    · obtain ⟨rfl, -⟩ := (hfedg a).mp hb
      exact hgfed ha
  case fed_iff =>
    simp only [List.mem_append, hfedg]
    by_cases hhg : h = g
    · subst hhg
      simp [hgfed, hglive]
    · rw [hI.fed_iff h, Function.update_noteq hhg]
      simp [hhg]

/-- Ending a run keeps the invariant. -/
theorem markInv_finish (hI : MarkInv files tab live0 s) (hs : s.runs = pre ++ (f, []) :: post) :
    MarkInv files tab live0 { s with runs := pre ++ post } where
  init_alive := hI.init_alive
  sound := hI.sound
  runs_live p hp := hI.runs_live p (by rw [hs]; rcases List.mem_append.mp hp with hp | hp <;> simp [hp])
  pending f' ha hd e' he' := by
    rcases hI.pending f' ha hd e' he' with hsat | ⟨p, hp, hpf, hep⟩
    · exact Or.inl hsat
    · rw [hs] at hp
      simp only [List.mem_append, List.mem_cons] at hp
      rcases hp with hp | rfl | hp
      · exact Or.inr ⟨p, List.mem_append_left _ hp, hpf, hep⟩
      · simp at hep
      · exact Or.inr ⟨p, List.mem_append_right _ hp, hpf, hep⟩
  fed_nodup := hI.fed_nodup
  fed_iff := hI.fed_iff

end Step

/-- Every step of the worklist keeps the invariant. -/
theorem markInv_step {live0 : List Nat} {s s' : MarkState} (hI : MarkInv files tab live0 s)
    (h : MarkStep files tab s s') : MarkInv files tab live0 s' := by
  cases h with
  | @visit pre post f e rest hs =>
    rcases @markEntry_spec files tab s.alive e with
      ⟨hm, hsat⟩ | ⟨g, hg, hdead, hx, hk, hm⟩
    · have heq : s.visit files tab pre post f e rest =
          { alive := s.alive, runs := pre ++ (f, rest) :: post, fed := s.fed } := by
        simp [MarkState.visit, hm]
      exact heq ▸ markInv_visit_idle hI hs hsat
    · have heq : s.visit files tab pre post f e rest =
          { alive := Function.update s.alive g true,
            runs := pre ++ (f, rest) :: post ++
              (if (files g).isDylib then none else some g).toList.map
                (fun g => (g, liveEntries files g)),
            fed := s.fed ++ (if (files g).isDylib then none else some g).toList } := by
        simp only [MarkState.visit, hm]
      exact heq ▸ markInv_visit_wake hI hs hg hdead hx hk (by split <;> rfl)
  | finish hs => exact markInv_finish hI hs

/-- The invariant holds in every state the worklist reaches. -/
theorem markInv_reachable {live0 : List Nat} {s : MarkState}
    (h : Relation.ReflTransGen (MarkStep files tab) (MarkState.init files live0) s) :
    MarkInv files tab live0 s := by
  induction h with
  | refl => exact markInv_init live0
  | tail _ hstep ih => exact markInv_step ih hstep

/-- Once no run is left, the invariant leaves nothing out: every `Needed` file is live,
since each entry of a live object is satisfied. -/
theorem MarkInv.alive_iff_needed {live0 : List Nat} {s : MarkState}
    (hI : MarkInv files tab live0 s) (hdone : s.runs = []) (g : Nat) :
    s.alive g = true ↔ Needed files tab live0 g := by
  refine ⟨hI.sound g, fun hn => ?_⟩
  induction hn with
  | live hg => exact hI.init_alive _ hg
  | @owner f g' obj e _ hobj he hx hk hg ih =>
    have hd : (files f).isDylib = false := by simp [hobj, InputFile.isDylib]
    rcases hI.pending f ih hd e (by simpa [liveEntries, hobj] using he) with hsat | ⟨p, hp, -⟩
    · exact hsat hx hk g' hg
    · simp [hdone] at hp

/-- Whatever the interleaving of the runs, once none is left: no file was fed twice, the
fed files are exactly the objects whose `is_alive` went from false to true, and the live
files are exactly the `Needed` ones. -/
theorem markLive_fixed_point {live0 : List Nat} {s : MarkState}
    (h : Relation.ReflTransGen (MarkStep files tab) (MarkState.init files live0) s)
    (hdone : s.runs = []) :
    s.fed.Nodup ∧ (∀ g, g ∈ s.fed ↔ g ∉ live0 ∧ s.alive g = true ∧ (files g).isDylib = false) ∧
      ∀ g, s.alive g = true ↔ Needed files tab live0 g :=
  have hI := markInv_reachable h
  ⟨hI.fed_nodup, hI.fed_iff, hI.alive_iff_needed hdone⟩

/-- A live object 0 with an undefined reference to symbol 0, which the dead archive
member 1 defines and owns. -/
def archiveFiles : Nat → InputFile
  | 0 => .object { priority := 1, entries := [{ msym := { isExtern := true }, sym := 0 }] }
  | _ => .object { priority := 2,
                   entries := [{ msym := { isExtern := true, type := .abs, value := 16 }, sym := 0 }] }

/-- Member 1 owns every symbol. -/
def archiveTab : SymTab := fun _ => { file := some 1 }

theorem markLive_fixed_point_archive :
    ∃ s, Relation.ReflTransGen (MarkStep archiveFiles archiveTab)
        (MarkState.init archiveFiles [0]) s ∧ s.runs = [] ∧ s.fed = [1] ∧
      ∀ g, s.alive g = true ↔ Needed archiveFiles archiveTab [0] g := by
  have h : Relation.ReflTransGen (MarkStep archiveFiles archiveTab)
      (MarkState.init archiveFiles [0])
      { alive := Function.update (fun g => decide (g ∈ [0])) 1 true, runs := [], fed := [1] } :=
    .tail (.tail (.tail (.tail .refl
      (@MarkStep.visit _ _ _ [] [] 0 _ [] rfl))
      (@MarkStep.finish _ _ _ [] [(1, liveEntries archiveFiles 1)] 0 rfl))
      (@MarkStep.visit _ _ _ [] [] 1 _ [] rfl))
      (@MarkStep.finish _ _ _ [] [] 1 rfl)
  exact ⟨_, h, rfl, rfl, (markLive_fixed_point h rfl).2.2⟩

end SoldMacho
