import BitmapWorks.Proofs.Dispatcher.Agenda
import BitmapWorks.Proofs.Dispatcher.Deals
import BitmapWorks.Proofs.Dispatcher.Poise
/-!
# Register — who is in

A task is registered when it is let in and struck off when it is done, and the gate counts as many tasks as are registered
(`Enrolled`).  The call that takes a task in has chores for that task only (`Visiting`); so a task that is rejected, or of
which the crew takes nothing, has gone when the call returns, and nobody else has moved (`register_of_run`).
-/
namespace BitmapWorks

variable {W B V : Type} {bh : Behaviour W B V}

/-! ## Admissions -/

def Act.keepsGate : Act W B V → Bool
  | regate _ => false
  | _ => true

/-- Whether an act can happen while the caller is in a call. -/
def Act.within : Act W B V → Bool
  | move _ | surround _ => true
  | _ => false

def Act.isCaller : Act W B V → Bool
  | move .caller => true
  | _ => false

theorem Admission.enter_inFlight (a : Admission) :
    a.enter.2.gate.inFlight = a.gate.inFlight + if a.enter.1 = true then 1 else 0 := by
  unfold enter
  split
  · simp
  all_goals
    rw [Gate.enter_eq]
    cases a.gate.stopping <;> simp

theorem Admission.beginShutdown_inFlight (a : Admission) : a.beginShutdown.gate.inFlight = a.gate.inFlight := by
  unfold beginShutdown
  split <;> rfl

/-- Whether a task counts as in, and whether its body is there. -/
def Cell.standing (c : Cell B V) : Bool × Bool := (c.entered, c.body.isSome)

namespace Dispatcher

def admits (bh : Behaviour W B V) (d : Dispatcher W B V) : Act W B V → Option Nat
  | .spawn b _ =>
    match (bh.prepare d.world b).1 with
    | .error _ => none
    | .ok () => if d.admission.enter.1 then some d.cells.length else none
  | _ => none

def admitted (bh : Behaviour W B V) (d : Dispatcher W B V) : List (Act W B V) → List Nat
  | [] => []
  | a :: as => (d.admits bh a).toList ++ match d.act? bh a with
    | none => []
    | some d => d.admitted bh as

variable {d d' : Dispatcher W B V} {ids : List Nat} {id : Nat} {c : Cell B V}

/-- Whether a task is there and not done: it has its body until it is done. -/
def lasts (d : Dispatcher W B V) (id : Nat) : Bool := (d.cells[id]?).any (·.body.isSome)

def roll (d : Dispatcher W B V) : List (Bool × Bool) := d.cells.map Cell.standing

theorem lasts_eq (d : Dispatcher W B V) (id : Nat) : d.lasts id = (d.roll[id]?).any Prod.snd := by
  rw [lasts, roll, List.getElem?_map]
  cases d.cells[id]? <;> rfl

theorem roll_set {c' : Cell B V} (hc : d.cells[id]? = some c) (hcells : d'.cells = d.cells.set id c')
    (hsame : c'.standing = c.standing) : d'.roll = d.roll := by
  rw [roll, hcells, List.map_set, hsame, ← List.map_set, ← cells_set_self hc, roll]

/-! ## Enrolment -/

/-- The tasks that were let in and are not done are registered, each once, in the order in which they came, and the gate
counts them. -/
structure Enrolled (d : Dispatcher W B V) (ids : List Nat) : Prop where
  count : d.inFlight = d.registry.length
  registry : d.registry = ids.filter d.lasts
  known : ∀ id ∈ ids, id < d.cells.length
  once : ids.Nodup
  entered : ∀ id c, d.cells[id]? = some c → (c.entered = true ↔ id ∈ d.registry)

namespace Enrolled

theorem same (h : Enrolled d ids) (hregistry : d'.registry = d.registry) (hcount : d'.inFlight = d.inFlight)
    (hroll : d'.roll = d.roll) : Enrolled d' ids := by
  have hlasts : d'.lasts = d.lasts := funext fun id => by rw [lasts_eq, lasts_eq, hroll]
  have hlength : d'.cells.length = d.cells.length := by
    have heq := congrArg List.length hroll
    rwa [roll, roll, List.length_map, List.length_map] at heq
  refine ⟨?_, ?_, ?_, h.once, fun id c' hc' => ?_⟩
  · rw [hcount, hregistry]
    exact h.count
  · rw [hregistry, hlasts]
    exact h.registry
  · rw [hlength]
    exact h.known
  · have hstanding : d.roll[id]? = some c'.standing := by
      rw [← hroll, roll, List.getElem?_map, hc']
      rfl
    rw [roll, List.getElem?_map] at hstanding
    obtain ⟨c, hc, hsame⟩ := Option.map_eq_some_iff.1 hstanding
    have hentered : c.entered = c'.entered := congrArg Prod.fst hsame
    rw [hregistry, ← hentered]
    exact h.entered id c hc

theorem concat (h : Enrolled d ids) {c : Cell B V} (hcells : d'.cells = d.cells ++ [c]) (hc : c.entered = false)
    (hregistry : d'.registry = d.registry) (hcount : d'.inFlight = d.inFlight) : Enrolled d' ids := by
  have hlasts : ∀ id ∈ ids, d'.lasts id = d.lasts id := fun id hid => by
    rw [lasts, lasts, hcells, List.getElem?_append_left (h.known id hid)]
  refine ⟨?_, ?_, fun id hid => ?_, h.once, fun id c' hc' => ?_⟩
  · rw [hcount, hregistry]
    exact h.count
  · rw [hregistry, h.registry]
    exact (List.filter_congr hlasts).symm
  · rw [hcells, List.length_append]
    exact Nat.lt_add_right _ (h.known id hid)
  · rw [hregistry]
    rw [hcells] at hc'
    rcases Nat.lt_or_ge id d.cells.length with hlt | hge
    · rw [List.getElem?_append_left hlt] at hc'
      exact h.entered id c' hc'
    · have hnot : id ∉ d.registry := fun hmem => by
        rw [h.registry] at hmem
        exact absurd (h.known id (List.mem_filter.1 hmem).1) (Nat.not_lt.2 hge)
      rw [List.getElem?_append_right hge] at hc'
      obtain rfl := List.mem_singleton.1 (List.mem_of_getElem? hc')
      simp [hc, hnot]

theorem letIn (h : Enrolled d ids) {c : Cell B V} (hcells : d'.cells = d.cells ++ [c]) (hc : c.entered = true)
    (hbody : c.body.isSome = true) (hregistry : d'.registry = d.registry ++ [d.cells.length])
    (hcount : d'.inFlight = d.inFlight + 1) : Enrolled d' (ids ++ [d.cells.length]) := by
  have hnew : d'.cells[d.cells.length]? = some c := by rw [hcells, List.getElem?_concat_length]
  have hlasts : ∀ id ∈ ids, d'.lasts id = d.lasts id := fun id hid => by
    rw [lasts, lasts, hcells, List.getElem?_append_left (h.known id hid)]
  have hlength : d'.cells.length = d.cells.length + 1 := by rw [hcells, List.length_append]; rfl
  refine ⟨?_, ?_, fun id hid => ?_, ?_, fun id c' hc' => ?_⟩
  · rw [hcount, hregistry, h.count, List.length_append]
    rfl
  · have hlast : d'.lasts d.cells.length = true := by rw [lasts, hnew, Option.any_some, hbody]
    rw [hregistry, h.registry, List.filter_append, List.filter_congr hlasts, List.filter_cons_of_pos hlast]
    rfl
  · rw [hlength]
    rcases List.mem_append.1 hid with hid | hid
    · exact Nat.lt_add_right 1 (h.known id hid)
    · rw [List.mem_singleton.1 hid]
      exact Nat.lt_succ_self _
  · refine List.nodup_append.2 ⟨h.once, List.nodup_singleton _, fun id hid id' hid' => ?_⟩
    rw [List.mem_singleton.1 hid']
    exact Nat.ne_of_lt (h.known id hid)
  · rw [hregistry, List.mem_append, List.mem_singleton]
    rcases Nat.lt_or_ge id d.cells.length with hlt | hge
    · rw [hcells, List.getElem?_append_left hlt] at hc'
      rw [h.entered id c' hc']
      simp [Nat.ne_of_lt hlt]
    · have hid := (List.getElem?_eq_some_iff.1 hc').1
      obtain rfl : id = d.cells.length := by omega
      obtain rfl := Option.some.inj (hnew.symm.trans hc')
      simp [hc]

theorem strikeOff (h : Enrolled d ids) {c c' : Cell B V} (hc : d.cells[id]? = some c)
    (hcells : d'.cells = d.cells.set id c') (hentered : c'.entered = false) (hbody : c'.body = none)
    (hregistry : d'.registry = d.registry.filter (· ≠ id))
    (hcount : d'.inFlight = d.inFlight - if c.entered = true then 1 else 0) : Enrolled d' ids := by
  have hid := (List.getElem?_eq_some_iff.1 hc).1
  have hself : d'.cells[id]? = some c' := by rw [hcells, List.getElem?_set_self hid]
  have hothers : ∀ id', id' ≠ id → d'.cells[id']? = d.cells[id']? := fun id' hne => by
    rw [hcells, List.getElem?_set_ne hne.symm]
  have hnodup : d.registry.Nodup := by rw [h.registry]; exact h.once.filter _
  refine ⟨?_, ?_, ?_, h.once, fun id' c'' hc'' => ?_⟩
  · have herase : d.registry.filter (· ≠ id) = d.registry.erase id := by
      rw [hnodup.erase_eq_filter]
      exact List.filter_congr fun id' _ => by by_cases hne : id' = id <;> simp [hne]
    rw [hcount, h.count, hregistry, herase, List.length_erase]
    by_cases hin : c.entered = true
    · have hmem := (h.entered id c hc).1 hin
      have hpos := List.length_pos_of_mem hmem
      rw [if_pos hin, if_pos (by simpa using hmem)]
      omega
    · have hmem := mt (h.entered id c hc).2 hin
      rw [if_neg hin, if_neg (by simpa using hmem)]
      omega
  · rw [hregistry, h.registry, List.filter_filter]
    refine List.filter_congr fun id' _ => ?_
    by_cases hne : id' = id
    · simp [lasts, hself, hbody, hne]
    · simp [lasts, hothers id' hne, hne]
  · rw [hcells, List.length_set]
    exact h.known
  · rw [hregistry, List.mem_filter]
    by_cases hne : id' = id
    · subst hne
      obtain rfl := Option.some.inj (hself.symm.trans hc'')
      simp [hentered]
    · rw [hothers id' hne] at hc''
      rw [h.entered id' c'' hc'']
      simp [hne]

end Enrolled

theorem Deal.enrolled {a : Act W B V} (h : Deal bh d d' a) (ha : a.keepsGate = true) (hs : Enrolled d ids) :
    Enrolled d' (ids ++ (d.admits bh a).toList) := by
  have hlevel : Level d d' → d'.inFlight = d.inFlight := fun h => by rw [inFlight, h.admission, inFlight]
  have hnobody : Enrolled d' ids → d.admits bh a = none → Enrolled d' (ids ++ (d.admits bh a).toList) := fun h hnone => by
    rwa [hnone, Option.toList_none, List.append_nil]
  cases h with
  | idle hidles hasked hworld hcells hl =>
    cases a with
    | spawn => cases hidles
    | _ => exact hnobody (hs.same hl.registry (hlevel hl) (by rw [roll, hcells, roll])) rfl
  | @stir m id c c' hc halike hcells hworld hl =>
    exact hnobody (hs.same hl.registry (hlevel hl)
      (roll_set hc hcells (by rw [Cell.standing, halike.entered, halike.body]; rfl))) rfl
  | @work i id c b item hc hbody hrun hcells hworld hl =>
    exact hnobody (hs.same hl.registry (hlevel hl)
      (roll_set hc hcells (by simp [Cell.standing, Cell.afterWork, Cell.offer, hbody]))) rfl
  | credit hc hclaimed hcells hworld hl | take hc hcells hworld hl | poll hc hcells hworld hl
  | forget hc hcells hworld hl =>
    exact hnobody (hs.same hl.registry (hlevel hl) (roll_set hc hcells rfl)) rfl
  | @conclude id c b outcome w settlement told hc hbody hclaimed hagenda hcloses hputs hcells hregistry hadmission =>
    refine hnobody (hs.strikeOff hc hcells rfl rfl hregistry ?_) rfl
    rw [inFlight, hadmission, inFlight]
    cases c.entered
    · exact (Int.sub_zero _).symm
    · rfl
  | @reject b sink fault hcause hcells hworld hregistry =>
    have hshut : d'.inFlight = d.inFlight ∧ d.admits bh (.spawn b sink) = none := by
      rcases hcause with ⟨hprepare, hadmission⟩ | ⟨hprepare, hclosed, -, hadmission⟩
      · exact ⟨by rw [inFlight, hadmission, inFlight], by rw [admits, hprepare]⟩
      · have henter := d.admission.enter_inFlight
        rw [hclosed] at henter
        refine ⟨by rw [inFlight, hadmission, henter, inFlight]; simp, ?_⟩
        rw [admits, hprepare]
        simp [hclosed]
    exact hnobody (hs.concat hcells rfl hregistry hshut.1) hshut.2
  | @letIn b sink fanout hprepare hopen hcells hworld hregistry hadmission =>
    have hadmits : d.admits bh (.spawn b sink) = some d.cells.length := by
      rw [admits, hprepare]
      simp [hopen]
    have henter := d.admission.enter_inFlight
    rw [if_pos hopen] at henter
    rw [hadmits]
    exact hs.letIn hcells rfl rfl hregistry (by rw [inFlight, hadmission, henter, inFlight])
  | shutdown hworld hcells hregistry hadmission =>
    exact hnobody (hs.same hregistry (by rw [inFlight, hadmission, Admission.beginShutdown_inFlight, inFlight])
      (by rw [roll, hcells, roll])) rfl
  | releaseValue hworld hcells hl | surround hworld hcells hl =>
    exact hnobody (hs.same hl.registry (hlevel hl) (by rw [roll, hcells, roll])) rfl
  | regate => cases ha

/-- **The register is kept throughout a run** that leaves the admission to the dispatcher. -/
theorem Enrolled.run (hbh : bh.Returns) (hregular : d.Regular bh) (h : Enrolled d ids) {as : List (Act W B V)}
    (has : ∀ a ∈ as, a.returns = true ∧ a.keepsGate = true) (hrun : d.run? bh as = some d') :
    Enrolled d' (ids ++ d.admitted bh as) := by
  induction as generalizing d ids with
  | nil =>
    obtain rfl := Option.some.inj hrun
    rwa [admitted, List.append_nil]
  | cons a as ih =>
    obtain ⟨d₁, hact, hrun⟩ := Option.bind_eq_some_iff.1 hrun
    obtain ⟨ha, hgate⟩ := has a (List.mem_cons_self ..)
    have hdeal := deal_of_act hbh hregular.held hregular.sound hact
    rw [admitted, hact, ← List.append_assoc]
    exact ih (hregular.act hbh ha hact) (hdeal.enrolled hgate h) (fun a ha => has a (List.mem_cons_of_mem _ ha)) hrun

theorem enrolled_start {world : W} {s : Settings} {processors : Nat} {checkpoints : Bool}
    (h : start world s processors .fresh checkpoints = .ok d) : Enrolled d [] := by
  unfold start at h
  split at h
  · cases h
  · cases h
    exact ⟨rfl, rfl, fun _ h => absurd h List.not_mem_nil, .nil, fun id c h => by cases h⟩

theorem Deal.length_le {a : Act W B V} (h : Deal bh d d' a) : d.cells.length ≤ d'.cells.length := by
  cases h with
  | stir hc halike hcells => rw [hcells, List.length_set]
  | idle hidles hasked hworld hcells | shutdown hworld hcells | releaseValue hworld hcells | surround hworld hcells
  | regate hworld hcells => rw [hcells]
  | work hc hbody hrun hcells => rw [hcells, List.length_set]
  | credit hc hclaimed hcells => rw [hcells, List.length_set]
  | conclude hc hbody hclaimed hagenda hcloses hputs hcells => rw [hcells, List.length_set]
  | take hc hcells | poll hc hcells | forget hc hcells => rw [hcells, List.length_set]
  | reject hcause hcells => rw [hcells, List.length_append]; exact Nat.le_add_right ..
  | letIn hprepare hopen hcells => rw [hcells, List.length_append]; exact Nat.le_add_right ..

theorem le_of_admits {a : Act W B V} (h : d.admits bh a = some id) : d.cells.length ≤ id := by
  cases a with
  | spawn b sink =>
    unfold admits at h
    dsimp only at h
    split at h
    · cases h
    · split at h
      · rw [← Option.some.inj h]
      · cases h
  | _ => cases h

theorem le_of_mem_admitted (hbh : bh.Returns) (hregular : d.Regular bh) {as : List (Act W B V)}
    (has : ∀ a ∈ as, a.returns = true) (h : id ∈ d.admitted bh as) : d.cells.length ≤ id := by
  induction as generalizing d with
  | nil => cases h
  | cons a as ih =>
    rw [admitted] at h
    rcases List.mem_append.1 h with hmem | hmem
    · exact le_of_admits (Option.mem_toList.1 hmem)
    · cases hact : d.act? bh a with
      | none =>
        rw [hact] at hmem
        cases hmem
      | some d₁ =>
        rw [hact] at hmem
        have hlater := ih (hregular.act hbh (has a (List.mem_cons_self ..)) hact)
          (fun a ha => has a (List.mem_cons_of_mem _ ha)) hmem
        exact (deal_of_act hbh hregular.held hregular.sound hact).length_le.trans hlater

/-! ## The call that takes a task in -/

theorem Follows.task {chore : Chore} {planned : List Chore} (h : Follows d chore planned) (hid : chore.task? = some id) :
    ∀ chore' ∈ planned, chore'.task? = some id := by
  cases h <;> simp_all [Chore.task?]

def ahead : Chore → Nat
  | .submit _ => 3
  | .submitPart _ next count => count - next + 5
  | .abandon _ left _ => left + 3
  | .complete _ => 2
  | .conclude _ => 1
  | _ => 0

theorem Follows.ahead_lt {chore : Chore} {planned : List Chore} (h : Follows d chore planned)
    (hid : chore.task? = some id) : (planned.map ahead).sum < ahead chore := by
  cases h with
  | receive | pumped | await | idle | drain | drainOver | timedOut | drained | force | pass | forced | recount | closeCrew
  | join => cases hid
  | _ =>
    simp only [List.map_cons, List.map_nil, List.sum_cons, List.sum_nil, ahead]
    omega

/-- How a dispatcher stands while its caller is in a call that is about one task only: all others are as they were. -/
structure Visiting (d₁ : Dispatcher W B V) (id : Nat) (d : Dispatcher W B V) : Prop where
  chores : ∀ chore ∈ d.agenda, chore.task? = some id
  registry : d.registry.filter (· ≠ id) = d₁.registry

/-- An act within a call strikes off the task of the first chore at most. -/
theorem Deal.registry_of_within {a : Act W B V} (h : Deal bh d d' a) (ha : a.within = true)
    (hchores : ∀ chore ∈ d.agenda, chore.task? = some id) :
    d'.registry = d.registry ∨ d'.registry = d.registry.filter (· ≠ id) := by
  cases h with
  | idle hidles hasked hworld hcells hl | stir hc halike hcells hworld hl | work hc hbody hrun hcells hworld hl
  | credit hc hclaimed hcells hworld hl | surround hworld hcells hl => exact .inl hl.registry
  | conclude hc hbody hclaimed hagenda hcloses hputs hcells hregistry =>
    have hid := hchores _ (List.mem_of_mem_head? hagenda)
    obtain rfl := Option.some.inj hid
    exact .inr hregistry
  | _ => cases ha

/-- What an act within a call does to the agenda: it puts what follows in the place of the first chore if the caller moves,
and leaves it alone if not. -/
theorem agenda_of_within (hbh : bh.Returns) (hregular : d.Regular bh) {a : Act W B V} (ha : a.within = true)
    (hact : d.act? bh a = some d') :
    (a = .move .caller ∧ ∃ chore rest, d.agenda = chore :: rest ∧ Moves d d' chore rest) ∨
    (a ≠ .move .caller ∧ Undisturbed d d') := by
  cases a with
  | move m =>
    cases m with
    | caller =>
      cases hagenda : d.agenda with
      | nil =>
        have hstep : d.stepCaller? bh = some d' := hact
        rw [stepCaller?, hagenda] at hstep
        cases hstep
      | cons chore rest => exact .inl ⟨rfl, chore, rest, rfl, follows_of_move hbh hregular.held hagenda hact⟩
    | worker i => exact .inr ⟨by simp, undisturbed_stepWorker hregular.held.steady.gone hact⟩
  | surround w =>
    obtain rfl := Option.some.inj hact
    exact .inr ⟨by simp, rfl, rfl⟩
  | _ => cases ha

theorem Visiting.act {d₁ : Dispatcher W B V} (hbh : bh.Returns) (hregular : d.Regular bh) (h : Visiting d₁ id d)
    {a : Act W B V} (ha : a.within = true) (hact : d.act? bh a = some d') : Visiting d₁ id d' := by
  refine ⟨?_, ?_⟩
  · rcases agenda_of_within hbh hregular ha hact with ⟨-, chore, rest, hagenda, hmoves⟩ | ⟨-, hsame, -⟩
    · obtain ⟨planned, hfollows, hagenda'⟩ := hmoves.agenda
      have hchores := h.chores
      rw [hagenda] at hchores
      obtain ⟨hfirst, hrest⟩ := List.forall_mem_cons.1 hchores
      rw [hagenda']
      exact List.forall_mem_append.2 ⟨hfollows.task hfirst, hrest⟩
    · rw [hsame]
      exact h.chores
  · have hdeal := deal_of_act hbh hregular.held hregular.sound hact
    rcases hdeal.registry_of_within ha h.chores with heq | heq
    · rw [heq, h.registry]
    · rw [heq, List.filter_filter, ← h.registry]
      exact List.filter_congr fun id' _ => Bool.and_self _

theorem agenda_spawn (bh : Behaviour W B V) (d : Dispatcher W B V) (b : B) (sink : Sink) :
    ∃ chore, chore.task? = some d.cells.length ∧ (d.spawn bh b sink).agenda = chore :: d.agenda := by
  rw [spawn_eq]
  split
  · exact ⟨.complete d.cells.length, rfl, rfl⟩
  · rcases letIn_cases bh (d := d.prepared bh b sink) d.cells.length (bh.prepare d.world b).2.2 with
      ⟨-, heq⟩ | ⟨-, -, heq⟩ | ⟨-, n, count, -, -, heq⟩
    all_goals
      rw [heq]
      exact ⟨_, rfl, rfl⟩

theorem Enrolled.visiting (h : Enrolled d ids) (hagenda : d.agenda = []) (b : B) (sink : Sink) :
    Visiting d d.cells.length (d.spawn bh b sink) := by
  have hnew : d.registry.filter (· ≠ d.cells.length) = d.registry := by
    refine List.filter_eq_self.2 fun id hid => ?_
    rw [h.registry] at hid
    exact decide_eq_true (Nat.ne_of_lt (h.known id (List.mem_filter.1 hid).1))
  refine ⟨fun chore hmem => ?_, ?_⟩
  · obtain ⟨first, hfirst, heq⟩ := agenda_spawn bh d b sink
    rw [heq, hagenda] at hmem
    rwa [List.mem_singleton.1 hmem]
  · have hdeal : Deal bh d (d.spawn bh b sink) (.spawn b sink) := deal_spawn b sink
    cases hdeal with
    | idle hidles => cases hidles
    | reject hcause hcells hworld hregistry => rw [hregistry, hnew]
    | letIn hprepare hopen hcells hworld hregistry =>
      rw [hregistry, List.filter_append, hnew]
      simp

/-! ## Tasks that the crew does not take -/

def refuses (d : Dispatcher W B V) : Act W B V → Bool
  | .move .caller =>
    match d.agenda with
    | .submit id :: _ => (d.crew.submit (.single id .takeUp)).1.isSome
    | .submitPart id _ _ :: _ => (d.crew.submit (.part id .hold)).1.isSome
    | _ => true
  | _ => true

end Dispatcher

/-- Whether no worker has anything of a task, and none has posted it. -/
def Strand.Untouched (s : Strand B V) : Prop := s.posted = 0 ∧ s.errands = 0

theorem Strand.Step.untouched {id : Nat} {n : Note} {s s' : Strand B V} (h : Strand.Step bh id n s s') (hs : s.Untouched) :
    s'.Untouched ∨ (n = .bar none ∧ s.chores = .submit id :: s'.chores) ∨
    ∃ next count cs, next < count ∧ n = .part (.offer none) ∧ s.chores = .submitPart id next count :: cs ∧
      s'.chores = .submitPart id (next + 1) count :: cs := by
  obtain ⟨hposted, herrands⟩ := hs
  cases h with
  | submit => exact .inr (.inl ⟨rfl, rfl⟩)
  | submitPart hnext => exact .inr (.inr ⟨_, _, _, hnext, rfl, rfl, rfl⟩)
  | receive => cases hposted
  | turn => exact absurd herrands (Multiset.cons_ne_zero)
  | _ => exact .inl ⟨hposted, herrands⟩

namespace Dispatcher

variable {d d' d₁ : Dispatcher W B V} {ids : List Nat} {id : Nat}

theorem Visiting.strand_chores (h : Visiting d₁ id d) : (d.strand id).chores = d.agenda :=
  List.filter_eq_self.2 fun chore hmem => decide_eq_true (h.chores chore hmem)

theorem Visiting.untouched (hbh : bh.Returns) (hregular : d.Regular bh) (h : Visiting d₁ id d) {a : Act W B V}
    (ha : a.within = true) (hreturns : a.returns = true) (hrefuses : d.refuses a = true) (hact : d.act? bh a = some d')
    (hs : (d.strand id).Untouched) : (d'.strand id).Untouched := by
  obtain ⟨-, -, hleads⟩ := weave hbh hregular.held hreturns hact
  have hchores := h.strand_chores
  have hchores' := (h.act hbh hregular ha hact).strand_chores
  rcases hleads id with ⟨-, heq⟩ | hstep
  · rwa [heq]
  rcases hstep.untouched hs with hsame | ⟨hnote, hfirst⟩ | ⟨next, count, cs, hnext, hnote, hfirst, hlater⟩
  · exact hsame
  · rw [hchores, hchores'] at hfirst
    rcases agenda_of_within hbh hregular ha hact with ⟨rfl, -⟩ | ⟨-, hsame, -⟩
    · -- the note of a refusal has a fault
      rw [refuses, hfirst] at hrefuses
      rw [note, hfirst] at hnote
      obtain ⟨r, hr⟩ := Option.isSome_iff_exists.1 hrefuses
      simp [hr, Note.bar] at hnote
    · rw [hsame] at hfirst
      exact absurd hfirst.symm (List.cons_ne_self _ _)
  · rw [hchores] at hfirst
    rw [hchores'] at hlater
    rcases agenda_of_within hbh hregular ha hact with ⟨rfl, -⟩ | ⟨-, hsame, -⟩
    · rw [refuses, hfirst] at hrefuses
      rw [note, hfirst] at hnote
      obtain ⟨r, hr⟩ := Option.isSome_iff_exists.1 hrefuses
      simp [hr, hnext, Note.part, Note.offer] at hnote
    · rw [hsame, hfirst] at hlater
      simp at hlater

theorem bodyIsFree_of_untouched (h : (d.strand id).Untouched) : d.bodyIsFree id = true := by
  unfold bodyIsFree
  refine List.all_eq_true.2 fun w hw => ?_
  cases w with
  | running e =>
    have hne : e.id ≠ id := fun heq => by
      have hmem : e ∈ d.crew.hand.filter (·.id = id) := by
        refine Multiset.mem_filter.2 ⟨Multiset.mem_coe.2 (List.mem_append_right _ ?_), heq⟩
        exact List.mem_filterMap.2 ⟨_, hw, rfl⟩
      have hnone : d.crew.hand.filter (·.id = id) = 0 := h.2
      rw [hnone] at hmem
      exact absurd hmem (Multiset.notMem_zero e)
    simp [hne]
  | _ => rfl

theorem conclude_ne_none (bh : Behaviour W B V) (hfree : d.bodyIsFree id = true) : d.conclude? bh id ≠ none := by
  unfold conclude?
  split
  · simp
  · rw [hfree]
    simp only [Bool.not_true, Bool.false_eq_true, if_false]
    repeat' split
    all_goals simp

/-- The caller does not wait in a call about a task that the crew has nothing of. -/
theorem Visiting.act?_ne_none (h : Visiting d₁ id d) (hs : (d.strand id).Untouched) (hagenda : d.agenda ≠ []) :
    d.act? bh (.move .caller) ≠ none := by
  obtain ⟨chore, rest, heq⟩ := List.exists_cons_of_ne_nil hagenda
  have hid := h.chores chore (by rw [heq]; exact List.mem_cons_self ..)
  unfold act? step? stepCaller?
  dsimp only
  rw [heq]
  cases chore with
  | conclude id' =>
    obtain rfl := Option.some.inj hid
    exact conclude_ne_none (d := { d with agenda := rest }) bh (bodyIsFree_of_untouched hs)
  | submit | submitPart | abandon | complete => simp
  | _ => cases hid

theorem returns_of_within {a : Act W B V} (h : a.within = true) : a.returns = true ∧ a.keepsGate = true := by
  cases a <;> first | exact ⟨rfl, rfl⟩ | cases h

theorem Visiting.run (hbh : bh.Returns) (hregular : d.Regular bh) (h : Visiting d₁ id d) {as : List (Act W B V)}
    (has : ∀ a ∈ as, a.within = true) (hrun : d.run? bh as = some d') : Visiting d₁ id d' := by
  induction as generalizing d with
  | nil =>
    obtain rfl := Option.some.inj hrun
    exact h
  | cons a as ih =>
    obtain ⟨d₂, hact, hrun⟩ := Option.bind_eq_some_iff.1 hrun
    have ha := has a (List.mem_cons_self ..)
    exact ih (hregular.act hbh (returns_of_within ha).1 hact) (h.act hbh hregular ha hact)
      (fun a ha => has a (List.mem_cons_of_mem _ ha)) hrun

/-- While the crew refuses a task it stays untouched, and each move of the caller leaves fewer ahead. -/
theorem Visiting.run_untouched (hbh : bh.Returns) (hregular : d.Regular bh) (h : Visiting d₁ id d)
    (hs : (d.strand id).Untouched) {as : List (Act W B V)} (has : ∀ a ∈ as, a.within = true)
    (hrefuses : Along bh (fun d a => d.refuses a = true) d as) (hrun : d.run? bh as = some d') :
    (d'.strand id).Untouched ∧ as.countP Act.isCaller + (d'.agenda.map ahead).sum ≤ (d.agenda.map ahead).sum := by
  induction as generalizing d with
  | nil =>
    obtain rfl := Option.some.inj hrun
    exact ⟨hs, by simp⟩
  | cons a as ih =>
    obtain ⟨d₂, hact, hrun⟩ := Option.bind_eq_some_iff.1 hrun
    have ha := has a (List.mem_cons_self ..)
    have hreturns := (returns_of_within ha).1
    obtain ⟨hfirst, hlater⟩ := hrefuses
    rw [hact] at hlater
    obtain ⟨hs', hcount⟩ := ih (hregular.act hbh hreturns hact) (h.act hbh hregular ha hact)
      (h.untouched hbh hregular ha hreturns hfirst hact hs) (fun a ha => has a (List.mem_cons_of_mem _ ha)) hlater hrun
    refine ⟨hs', ?_⟩
    rw [List.countP_cons]
    rcases agenda_of_within hbh hregular ha hact with ⟨rfl, chore, rest, hagenda, hmoves⟩ | ⟨hother, hsame, -⟩
    · obtain ⟨planned, hfollows, hagenda'⟩ := hmoves.agenda
      have hless := hfollows.ahead_lt (h.chores chore (by rw [hagenda]; exact List.mem_cons_self ..))
      rw [hagenda', List.map_append, List.sum_append] at hcount
      rw [hagenda, List.map_cons, List.sum_cons, Act.isCaller, if_pos rfl]
      omega
    · have hnot : a.isCaller = false := by
        cases a with
        | move m => cases m <;> first | rfl | exact absurd rfl hother
        | _ => rfl
      rw [hsame] at hcount
      rw [hnot]
      simpa using hcount

theorem along_refuses (hbh : bh.Returns) (hregular : d.Regular bh) (id : Nat)
    (hchores : ∀ chore ∈ d.agenda, chore = .complete id ∨ chore = .conclude id) {as : List (Act W B V)}
    (has : ∀ a ∈ as, a.within = true) : Along bh (fun d a => d.refuses a = true) d as := by
  induction as generalizing d with
  | nil => trivial
  | cons a as ih =>
    have ha := has a (List.mem_cons_self ..)
    constructor
    · show d.refuses a = true
      unfold refuses
      split
      · split
        · rename_i heq
          rcases hchores _ (by rw [heq]; exact List.mem_cons_self ..) with h | h <;> cases h
        · rename_i heq
          rcases hchores _ (by rw [heq]; exact List.mem_cons_self ..) with h | h <;> cases h
        · rfl
      · rfl
    · split
      · trivial
      · rename_i d₂ hact
        refine ih (hregular.act hbh (returns_of_within ha).1 hact) (fun chore hmem => ?_)
          fun a ha => has a (List.mem_cons_of_mem _ ha)
        rcases agenda_of_within hbh hregular ha hact with ⟨-, first, rest, hagenda, hmoves⟩ | ⟨-, hsame, -⟩
        · obtain ⟨planned, hfollows, hagenda'⟩ := hmoves.agenda
          rw [hagenda] at hchores
          rw [hagenda'] at hmem
          rcases List.mem_append.1 hmem with hmem | hmem
          · rcases hchores first (List.mem_cons_self ..) with rfl | rfl <;> cases hfollows <;> simp_all
          · exact hchores chore (List.mem_cons_of_mem _ hmem)
        · rw [hsame] at hmem
          exact hchores chore hmem

theorem agenda_of_rejected (hidle : d.agenda = []) {b : B} {sink : Sink} (hout : d.admits bh (.spawn b sink) = none) :
    (d.spawn bh b sink).agenda = [.complete d.cells.length] := by
  rw [spawn_eq]
  cases hprepare : (bh.prepare d.world b).1 with
  | error fault => exact congrArg (List.cons _) hidle
  | ok =>
    rw [admits, hprepare] at hout
    dsimp only at hout ⊢
    rcases letIn_cases bh (d := d.prepared bh b sink) d.cells.length (bh.prepare d.world b).2.2 with
      ⟨-, heq⟩ | ⟨hopen, -⟩ | ⟨hopen, -⟩
    · rw [heq]
      exact congrArg (List.cons _) hidle
    all_goals
      have hin : d.admission.enter.1 = true := hopen
      rw [if_pos hin] at hout
      cases hout

/-! ## Who is in -/

/-- What a dispatcher says of who is in: the tasks that were let in and are not done, each once. -/
structure Registered (d : Dispatcher W B V) (admitted : List Nat) : Prop where
  count : d.inFlight = d.registry.length
  once : d.registry.Nodup
  mem_iff : ∀ id, id ∈ d.registry ↔ id ∈ admitted ∧ ∃ c, d.cells[id]? = some c ∧ c.stage ≠ .done

theorem lasts_iff (hsound : (d.strand id).Sound) : d.lasts id = true ↔ ∃ c, d.cells[id]? = some c ∧ c.stage ≠ .done := by
  unfold lasts
  cases hc : d.cells[id]? with
  | none => simp
  | some c =>
    have hbody := (hsound.staged c hc).body
    rw [Option.any_some, Option.isSome_iff_ne_none]
    simp [hbody]

theorem Enrolled.registered (h : Enrolled d ids) (hsound : ∀ id, (d.strand id).Sound) : Registered d ids := by
  refine ⟨h.count, ?_, fun id => ?_⟩
  · rw [h.registry]
    exact h.once.filter _
  · rw [h.registry, List.mem_filter, lasts_iff (hsound id)]

theorem length_spawn (b : B) (sink : Sink) : (d.spawn bh b sink).cells.length = d.cells.length + 1 := by
  have hdeal : Deal bh d (d.spawn bh b sink) (.spawn b sink) := deal_spawn b sink
  cases hdeal with
  | idle hidles => cases hidles
  | reject hcause hcells => rw [hcells, List.length_append]; rfl
  | letIn hprepare hopen hcells => rw [hcells, List.length_append]; rfl

theorem length_le_of_run (hbh : bh.Returns) (hregular : d.Regular bh) {as : List (Act W B V)}
    (has : ∀ a ∈ as, a.returns = true) (hrun : d.run? bh as = some d') : d.cells.length ≤ d'.cells.length := by
  induction as generalizing d with
  | nil =>
    obtain rfl := Option.some.inj hrun
    exact Nat.le_refl _
  | cons a as ih =>
    obtain ⟨d₁, hact, hrun⟩ := Option.bind_eq_some_iff.1 hrun
    have hle := (deal_of_act hbh hregular.held hregular.sound hact).length_le
    exact hle.trans (ih (hregular.act hbh (has a (List.mem_cons_self ..)) hact)
      (fun a ha => has a (List.mem_cons_of_mem _ ha)) hrun)

theorem untouched_spawn (hheld : d.Held) (b : B) {sink : Sink} (hsink : sink ≠ .callback true) :
    ((d.spawn bh b sink).strand d.cells.length).Untouched := by
  obtain ⟨hchores, hposted, herrands, -⟩ := hheld.rooted d.cells.length (List.getElem?_eq_none (Nat.le_refl _))
  have hleads : Strand.Leads bh d.cells.length _ _ ((d.spawn bh b sink).strand d.cells.length) := leads_spawn b hsink _
  rcases hleads with ⟨-, heq⟩ | hstep
  · rw [heq]
    exact ⟨hposted, herrands⟩
  · rcases hstep.untouched ⟨hposted, herrands⟩ with hsame | ⟨-, hfirst⟩ | ⟨next, count, cs, -, -, hfirst, -⟩
    · exact hsame
    all_goals
      rw [hchores] at hfirst
      cases hfirst

def Unmoved (d d' : Dispatcher W B V) : Prop := d'.registry = d.registry ∧ d'.inFlight = d.inFlight

/-- While the call goes on, the same tasks are in except for the one that the call is about. -/
theorem Visiting.unmoved {ids' : List Nat} (h : Visiting d id d') (hs : Enrolled d ids) (hs' : Enrolled d' ids')
    (hid : id ∉ d'.registry) : Unmoved d d' := by
  have hregistry : d'.registry = d.registry := by
    rw [← h.registry]
    refine (List.filter_eq_self.2 fun id' hmem => decide_eq_true ?_).symm
    rintro rfl
    exact hid hmem
  exact ⟨hregistry, by rw [hs'.count, hs.count, hregistry]⟩

/-- **Who is in.**  Take any run of a dispatcher with a gate of its own, in which the caller's hooks return.  Then the tasks
that were let in and are not done are registered, each once, and the gate counts as many.  Take a call that takes a task
in, behind that.  If the task is rejected, it is never registered, and the call moves nobody.  If it is rejected, or the crew
refuses what is handed in of it, the caller makes a limited number of moves, none of which has to wait, and when the call
returns the task is done and the same tasks are in as before. -/
theorem register_of_run (hbh : bh.Returns) {world : W} {s : Settings} {processors : Nat} {checkpoints : Bool}
    {d₀ : Dispatcher W B V} (hstart : start world s processors .fresh checkpoints = .ok d₀) {as : List (Act W B V)}
    (has : ∀ a ∈ as, a.returns = true ∧ a.keepsGate = true) (hrun : d₀.run? bh as = some d) :
    Registered d (d₀.admitted bh as) ∧
    ∀ (b : B) (sink : Sink) (bs : List (Act W B V)) (d' : Dispatcher W B V), sink ≠ .callback true → d.agenda = [] →
      (d.spawn bh b sink).run? bh bs = some d' →
      (d.admits bh (.spawn b sink) = none → (∀ a ∈ bs, a.returns = true ∧ a.keepsGate = true) →
        d.cells.length ∉ d'.registry) ∧
      ((∀ a ∈ bs, a.within = true) →
        (d.admits bh (.spawn b sink) = none → Unmoved d d') ∧
        (d.admits bh (.spawn b sink) = none ∨ Along bh (fun d a => d.refuses a = true) (d.spawn bh b sink) bs →
          bs.countP Act.isCaller ≤ ((d.spawn bh b sink).agenda.map ahead).sum ∧
          (d'.agenda ≠ [] → d'.act? bh (.move .caller) ≠ none) ∧
          (d'.agenda = [] → Unmoved d d' ∧ ∃ c, d'.cells[d.cells.length]? = some c ∧ c.stage = .done))) := by
  have hregular := (regular_start hstart).run hbh (fun a ha => (has a ha).1) hrun
  have henrolled := (enrolled_start hstart).run hbh (regular_start hstart) has hrun
  rw [List.nil_append] at henrolled
  refine ⟨henrolled.registered hregular.sound, fun b sink bs d' hsink hidle hcall => ?_⟩
  have hspawn : d.act? bh (.spawn b sink) = some (d.spawn bh b sink) := rfl
  have hregular₁ := hregular.act hbh (a := .spawn b sink) (decide_eq_true hsink) hspawn
  have hdeal := deal_of_act hbh hregular.held hregular.sound hspawn
  have henrolled₁ := hdeal.enrolled rfl henrolled
  have hnever : d.admits bh (.spawn b sink) = none → (∀ a ∈ bs, a.returns = true ∧ a.keepsGate = true) →
      d.cells.length ∉ d'.registry := by
    intro hout hbs hmem
    have henrolled' := henrolled₁.run hbh hregular₁ hbs hcall
    rw [henrolled'.registry, hout, Option.toList_none, List.append_nil] at hmem
    rcases List.mem_append.1 (List.mem_filter.1 hmem).1 with hearlier | hlater
    · exact absurd (henrolled.known _ hearlier) (Nat.lt_irrefl _)
    · have hle := le_of_mem_admitted hbh hregular₁ (fun a ha => (hbs a ha).1) hlater
      rw [length_spawn] at hle
      exact absurd hle (Nat.not_succ_le_self _)
  refine ⟨hnever, fun hbs => ?_⟩
  have hvisiting := (henrolled.visiting hidle b sink).run hbh hregular₁ hbs hcall
  have henrolled' := henrolled₁.run hbh hregular₁ (fun a ha => returns_of_within (hbs a ha)) hcall
  refine ⟨fun hout => ?_, fun hrefuses => ?_⟩
  · exact hvisiting.unmoved henrolled henrolled' (hnever hout fun a ha => returns_of_within (hbs a ha))
  · have hregular' := hregular₁.run hbh (fun a ha => (returns_of_within (hbs a ha)).1) hcall
    have hrefuses := hrefuses.elim
      (fun hout => along_refuses hbh hregular₁ d.cells.length (by simp [agenda_of_rejected hidle hout]) hbs) id
    obtain ⟨huntouched, hcount⟩ := (henrolled.visiting hidle b sink).run_untouched hbh hregular₁
      (untouched_spawn hregular.held b hsink) hbs hrefuses hcall
    refine ⟨Nat.le_of_add_right_le hcount, hvisiting.act?_ne_none huntouched, fun hover => ?_⟩
    have hid : d.cells.length < d'.cells.length := by
      have hle := length_le_of_run hbh hregular₁ (fun a ha => (returns_of_within (hbs a ha)).1) hcall
      rw [length_spawn] at hle
      exact hle
    have hc := List.getElem?_eq_getElem hid
    have hdone := (hregular'.poised _ _ hc).done (hregular'.sound _) hc (hvisiting.strand_chores.trans hover)
      huntouched.1 huntouched.2
    refine ⟨hvisiting.unmoved henrolled henrolled' fun hmem => ?_, _, hc, hdone⟩
    rw [henrolled'.registry] at hmem
    obtain ⟨c, hc', hnot⟩ := (lasts_iff (hregular'.sound _)).1 (List.mem_filter.1 hmem).2
    obtain rfl := Option.some.inj (hc.symm.trans hc')
    exact hnot hdone

def fillingActs : List (Act World Rehearsal Recital) :=
  .spawn (Rehearsal.ofChorus ⟨2, none, false, 0, []⟩) .promise :: List.replicate 3 (.move .caller)

theorem fillingActs_returns : ∀ a ∈ fillingActs, a.returns = true ∧ a.keepsGate = true := by
  simp [fillingActs, Act.returns, Act.keepsGate, or_imp, forall_and]

/-- There is no room for a solo behind it. -/
theorem register_of_run_full : ∃ d₀ d d', rehearsalRoom = .ok d₀ ∧
    (∀ a ∈ fillingActs, a.returns = true ∧ a.keepsGate = true) ∧ d₀.run? Rehearsal.behaviour fillingActs = some d ∧
    Registered d (d₀.admitted Rehearsal.behaviour fillingActs) ∧ d.registry = [0] ∧ d.agenda = [] ∧
    (d.spawn Rehearsal.behaviour (.ofSolo ⟨1, false, none, 0, 0, none, .play, false⟩) .promise).run? Rehearsal.behaviour
      (List.replicate 3 (.move .caller)) = some d' ∧ d'.agenda = [] ∧ Unmoved d d' ∧
    ∃ c, d'.cells[1]? = some c ∧ c.stage = .done := by
  have hends : (rehearsalRoom.toOption.bind fun d₀ => (d₀.run? Rehearsal.behaviour fillingActs).bind fun d =>
      ((d.spawn Rehearsal.behaviour (.ofSolo ⟨1, false, none, 0, 0, none, .play, false⟩) .promise).run?
        Rehearsal.behaviour (List.replicate 3 (.move .caller))).map fun d' =>
          decide (d.registry = [0] ∧ d.agenda = [] ∧ d.cells.length = 1 ∧ d'.agenda = [] ∧
            Along Rehearsal.behaviour (fun d a => d.refuses a = true)
              (d.spawn Rehearsal.behaviour (.ofSolo ⟨1, false, none, 0, 0, none, .play, false⟩) .promise)
              (List.replicate 3 (.move .caller)))) = some true := by decide +kernel
  obtain ⟨d₀, hroom, hends⟩ := Option.bind_eq_some_iff.1 hends
  obtain ⟨d, hrun, hends⟩ := Option.bind_eq_some_iff.1 hends
  obtain ⟨d', hcall, hends⟩ := Option.map_eq_some_iff.1 hends
  obtain ⟨hregistry, hidle, hlength, hover, hrefuses⟩ := of_decide_eq_true hends
  have hstart := eq_ok_of_toOption hroom
  obtain ⟨hregistered, hcalls⟩ := register_of_run rehearsal_returns hstart fillingActs_returns hrun
  obtain ⟨-, hvisit⟩ := hcalls _ .promise _ d' (by simp) hidle hcall
  obtain ⟨-, hrefused⟩ := hvisit fun a ha => by rw [List.eq_of_mem_replicate ha]; rfl
  obtain ⟨-, -, hreturned⟩ := hrefused (.inr hrefuses)
  obtain ⟨hunmoved, hdone⟩ := hreturned hover
  rw [hlength] at hdone
  exact ⟨d₀, d, d', hstart, fillingActs_returns, hrun, hregistered, hregistry, hidle, hcall, hover, hunmoved, hdone⟩

end Dispatcher
end BitmapWorks
