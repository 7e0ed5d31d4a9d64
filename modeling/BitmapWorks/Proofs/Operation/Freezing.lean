import BitmapWorks.Proofs.Dispatcher.Lifecycle
import BitmapWorks.Proofs.Operation.Scene
import BitmapWorks.Proofs.Text.Whole
/-!
# Freezing — bitmaps that tasks read

A task that encodes a bitmap, saves it or writes it as text freezes the bitmap when its preparation goes well, and keeps
its guard as long as it has its body.  So the guards of a bitmap are those that the caller has and one for each such task
(`Scene.Solvent.guards_eq`); while there is one, nobody changes the bitmap (`Scene.Solvent.bitmap_step`), and what the task
gives comes from what the bitmap held when it was asked for (`Scene.Reading`).
-/
namespace BitmapWorks

variable {trips : World → Operation → Nat → Option (Option String)}

/-! ## Cleaning up -/

section

variable {W B V : Type} {bh : Behaviour W B V} {id : Nat} {c : Cell B V}

def Event.ends : Event V → Bool
  | settled _ _ | discarded _ => true
  | _ => false

/-- Whether a task is cleaned up once it is done, once, and its sink is notified or dropped behind that only; the latest
event comes first. -/
structure CleanedUp (id : Nat) (c : Cell B V) (history : List (Event V)) : Prop where
  once : history.countP Event.isCleanUp = if c.stage = .done then 1 else 0
  first : ∀ newer event older, history = newer ++ event :: older → event.ends = true → .cleanedUp id ∈ older

theorem Tale.cleanedUp {s : Strand B V} {calls : List Nat} {ending : List (Event V)} (h : Tale id c s calls ending)
    {cs : List Chore} (hstaged : Staged c cs) : CleanedUp id c s.story := by
  have hplain : ∀ e ∈ calls.map (Event.called (V := V) id) ++ [.prepared id],
      e.isCleanUp = false ∧ e.ends = false := fun e he => by
    rcases List.mem_append.1 he with he | he
    · obtain ⟨item, -, rfl⟩ := List.mem_map.1 he
      exact ⟨rfl, rfl⟩
    · obtain rfl := List.mem_singleton.1 he
      exact ⟨rfl, rfl⟩
  rw [h.story]
  refine ⟨?_, fun newer event older heq hends => ?_⟩
  · rw [List.countP_append, h.told.countP_cleanUp hstaged, List.countP_eq_zero.2 fun e he => by simp [(hplain e he).1]]
    rfl
  · -- only the last event that happened can be the end
    have hlast : ∀ {last : Event V} {rest : List (Event V)}, (∀ e ∈ rest, e.ends = false) →
        last :: rest = newer ++ event :: older → older = rest := fun {last rest} hrest heq => by
      cases newer with
      | nil => exact (List.cons.inj heq).2.symm
      | cons e newer =>
        have hmem : event ∈ rest := by
          rw [(List.cons.inj heq).2]
          simp
        rw [hrest event hmem] at hends
        cases hends
    cases h.told with
    | working =>
      have hmem : event ∈ calls.map (Event.called (V := V) id) ++ [.prepared id] := by
        rw [← List.nil_append (calls.map _ ++ _), heq]
        simp
      rw [(hplain event hmem).2] at hends
      cases hends
    | flushed tally =>
      have hmem : event ∈ [Event.flushed id tally] ++ (calls.map (Event.called (V := V) id) ++ [.prepared id]) := by
        rw [heq]
        simp
      rcases List.mem_append.1 hmem with hmem | hmem
      · obtain rfl := List.mem_singleton.1 hmem
        cases hends
      · rw [(hplain event hmem).2] at hends
        cases hends
    | @closed outcome asked last tally hdone hending hevent =>
      have hasked : ∀ e ∈ asked, e.ends = false := fun e he => by
        cases hending with
        | fault => cases he
        | result =>
          obtain rfl := List.mem_singleton.1 he
          rfl
      have hrest : ∀ e ∈ asked ++ [.cleanedUp id, .flushed id tally] ++
          (calls.map (Event.called (V := V) id) ++ [.prepared id]), e.ends = false := fun e he => by
        rcases List.mem_append.1 he with he | he
        · rcases List.mem_append.1 he with he | he
          · exact hasked e he
          · rcases List.mem_cons.1 he with rfl | he
            · rfl
            · obtain rfl := List.mem_singleton.1 he
              rfl
        · exact (hplain e he).2
      rw [hlast hrest heq]
      simp

end

/-! ## Who has guards -/

def Operation.reads (o : Operation) (n : Nat) : Bool := o.assignment.isSome && decide (o.request.bitmap? = some n)

/-- Whether a task that reads the bitmap of a number is in flight. -/
def Cell.reads (c : Cell Operation Product) (n : Nat) : Bool := c.body.any (·.reads n)

def Dispatcher.readers (d : Dispatcher World Operation Product) (n : Nat) : Nat := d.cells.countP (·.reads n)

section

variable {n : Nat}

/-- A body has a guard of the bitmap that is frozen for it, and no other. -/
theorem count_guard_body (o : Operation) (n : Nat) : o.assets.count (.guard n) = if o.guarded = some n then 1 else 0 := by
  rw [Operation.assets, Multiset.count_add, Multiset.count_add,
    Multiset.count_eq_zero.2 (Operation.guard_notMem_request _ n),
    Multiset.count_eq_zero.2 (Operation.guard_notMem_slots _ n)]
  cases o.guarded with
  | none => rfl
  | some m =>
    show 0 + Multiset.count (Asset.guard n) {Asset.guard m} + 0 = _
    rw [Multiset.count_singleton]
    simp [eq_comm]

/-- **A body that started as a request freezes what it reads**, and nothing else. -/
theorem Operation.guarded_eq_some {r : Request} {o₀ o : Operation} {items : List Nat} (hstart : Started r o₀)
    (h : Wrought (faltering trips) o₀ items o) : o.guarded = some n ↔ o.reads n = true := by
  have hdescends := descends_of_wrought h
  have hbitmap : o.request.bitmap? = o₀.request.bitmap? := by
    rcases hdescends.request with heq | heq <;> rw [heq]
    exact bitmap?_spent _
  rw [hdescends.guarded, reads, hdescends.assignment, hbitmap]
  cases hstart with
  | refused => simp [ofRequest]
  | ready hresolve => simp

end

namespace Dispatcher

variable {d : Dispatcher World Operation Product} {id n : Nat}

theorem Trading.guarded_eq_some (h : d.Trading trips) {c : Cell Operation Product} (hc : d.cells[id]? = some c)
    {o : Operation} (hbody : c.body = some o) : o.guarded = some n ↔ o.reads n = true := by
  obtain ⟨o₀, ⟨r, hstart⟩, hcrafted⟩ := h.making.crafted id c hc
  obtain ⟨items, hwrought, -⟩ := hcrafted.body o hbody
  exact Operation.guarded_eq_some hstart hwrought

theorem Trading.count_guard (h : d.Trading trips) {c : Cell Operation Product} (hc : d.cells[id]? = some c) (n : Nat) :
    c.assets.count (.guard n) = if c.reads n = true then 1 else 0 := by
  have hwaiting : (c.settlement.promise.waiting.elim 0 Product.assetsOf).count (.guard n) = 0 := by
    cases c.settlement.promise.waiting with
    | none => rfl
    | some outcome => exact Multiset.count_eq_zero.2 (Operation.guard_notMem_assetsOf outcome n)
  rw [Cell.assets, Multiset.count_add, hwaiting, Nat.add_zero, Cell.reads]
  cases hbody : c.body with
  | none => rfl
  | some o =>
    show o.assets.count (.guard n) = if o.reads n = true then 1 else 0
    rw [count_guard_body]
    exact if_congr (h.guarded_eq_some hc hbody) rfl rfl

/-- **The tasks have a guard of a bitmap for each of them that reads it.** -/
theorem Trading.count_guards (h : d.Trading trips) (n : Nat) : d.assets.count (.guard n) = d.readers n := by
  have hcells : ∀ c ∈ d.cells, c.assets.count (.guard n) = if c.reads n = true then 1 else 0 := fun c hc => by
    obtain ⟨id, hid⟩ := List.getElem?_of_mem hc
    exact h.count_guard hid n
  unfold assets readers
  generalize d.cells = cells at hcells ⊢
  induction cells with
  | nil => rfl
  | cons c cells ih =>
    rw [List.map_cons, List.sum_cons, Multiset.count_add, hcells c (List.mem_cons_self ..), List.countP_cons,
      ih fun c hc => hcells c (List.mem_cons_of_mem _ hc), Nat.add_comm]

end Dispatcher

/-! ## What a task gives -/

/-- What an assignment gives that reads a bitmap with these contents, with the files before and afterwards. -/
inductive Assignment.Gives (b : Bitmap) (files : FileSystem) : Assignment → Product → FileSystem → Prop
  | serialize {n f window} : Encoding.serialize 0 b f = .ok window →
    Gives b files (.serialize n f none) (.buffer window (some window.allocated)) files
  | serializeInto {n f window} {target : Target} : Operation.serializeInto b f target.window = .ok window →
    Gives b files (.serialize n f (some target)) (.buffer window target.charge) files
  | save {n path f bytes files'} : files.save b path f = (.ok bytes, files') →
    Gives b files (.save n path f) (.saved bytes) files'
  | render {n style charge} : Gives b files (.render n style) (.text (Text.bytes b style) charge) files

namespace Operation

variable {w : World} {o : Operation} {a : Assignment} {r : Request} {n item : Nat} {product : Product}

/-- **What an assignment gives that reads a bitmap comes from what the bitmap holds.** -/
theorem gives_of_perform (h : r.Becomes a) (hbitmap : r.bitmap? = some n) (hanswer : (perform w item a).1 = .ok product) :
    a.Gives (w.bitmap n) w.files product (perform w item a).2.1.files := by
  cases h with
  | @serialize i selector f target hf =>
    obtain rfl := Option.some.inj hbitmap
    cases target with
    | none =>
      rw [perform] at hanswer ⊢
      cases hencode : Encoding.serialize 0 (w.bitmap i) f with
      | error fault =>
        rw [hencode] at hanswer
        cases hanswer
      | ok window =>
        rw [hencode] at hanswer
        obtain rfl := Except.ok.inj hanswer
        exact .serialize hencode
    | some target =>
      rw [perform] at hanswer ⊢
      cases hencode : serializeInto (w.bitmap i) f target.window with
      | error fault =>
        rw [hencode] at hanswer
        cases hanswer
      | ok window =>
        rw [hencode] at hanswer
        obtain rfl := Except.ok.inj hanswer
        exact .serializeInto hencode
  | @save i path format f hpath hf =>
    obtain rfl := Option.some.inj hbitmap
    rw [perform] at hanswer ⊢
    cases hsave : w.files.save (w.bitmap i) path f with
    | mk answer files =>
      rw [hsave] at hanswer
      cases answer with
      | error fault => cases hanswer
      | ok bytes =>
        obtain rfl := Except.ok.inj hanswer
        exact .save hsave
  | @render i name style hstyle =>
    obtain rfl := Option.some.inj hbitmap
    obtain rfl := Except.ok.inj hanswer
    rw [← Text.bytes_eq]
    exact .render
  | _ => cases hbitmap

/-- **What is in a slot after a call was there before, or the call has made it.** -/
theorem gives_of_work (h : r.Becomes a) (hbitmap : r.bitmap? = some n) (ha : o.assignment = some a) {k : Nat}
    (hslot : ((faltering trips).work w o item).body.slots[k]? = some (some product)) :
    o.slots[k]? = some (some product) ∨
      a.Gives (w.bitmap n) w.files product ((faltering trips).work w o item).world.files := by
  rw [work_faltering] at hslot ⊢
  cases htrip : trips w o item with
  | some message =>
    rw [htrip] at hslot
    exact .inl hslot
  | none =>
    rw [htrip] at hslot
    dsimp only at hslot ⊢
    have hgives : ∀ product, (perform w item a).1 = .ok product →
        a.Gives (w.bitmap n) w.files product (perform w item a).2.1.files := fun _ => gives_of_perform h hbitmap
    rw [work_eq ha] at hslot ⊢
    revert hslot hgives
    generalize perform w item a = done
    obtain ⟨answer, w', bytes⟩ := done
    intro hslot hgives
    cases answer with
    | error fault => exact .inl hslot
    | ok product' =>
      by_cases hk : item = k
      · subst hk
        obtain ⟨hlt, -⟩ := List.getElem?_eq_some_iff.1 hslot
        have hset : (o.slots.set item (some product'))[item]? = some (some product) := hslot
        rw [List.getElem?_set_self (by simpa using hlt)] at hset
        obtain rfl := Option.some.inj (Option.some.inj hset)
        exact .inr (hgives _ rfl)
      · exact .inl ((List.getElem?_set_ne hk).symm.trans hslot)

theorem reads_of (ha : o.assignment = some a) (hbitmap : o.request.bitmap? = some n) : o.reads n = true := by
  rw [reads, ha, hbitmap]
  simp

theorem slots_of_result (hbitmap : o.request.bitmap? = some n) (hresult : (result w o).1 = .ok product) :
    o.slots[0]? = some (some product) := by
  unfold result at hresult
  dsimp only at hresult
  split at hresult
  · rename_i hrequest
    rw [hrequest] at hbitmap
    cases hbitmap
  · split at hresult
    · rename_i product' hslots
      obtain rfl := Except.ok.inj hresult
      rw [hslots]
      rfl
    · cases hresult

end Operation

/-! ## Frozen bitmaps -/

namespace Scene

variable {s s' : Scene} {g : Gesture} {gs : List Gesture} {id n : Nat}

namespace Solvent

/-- **The guards of a bitmap are those of the caller and one for each task in flight that reads it.** -/
theorem guards_eq (h : s.Solvent trips) (n : Nat) :
    s.dispatcher.world.shelf.guards n = s.estate.count (.guard n) + s.dispatcher.readers n := by
  rw [h.books.guards, Multiset.count_add, h.trading.count_guards]

/-- **Nobody changes a bitmap that is frozen**, as long as it is. -/
theorem bitmap_step (h : s.Solvent trips) (hstep : s.step? (Operation.faltering trips) g = some s')
    (hbefore : 0 < s.dispatcher.world.shelf.guards n) (hafter : 0 < s'.dispatcher.world.shelf.guards n) :
    s'.dispatcher.world.bitmap n = s.dispatcher.world.bitmap n := by
  obtain ⟨t, ht, -⟩ := Shelf.guarded hbefore
  obtain ⟨t', ht', -⟩ := Shelf.guarded hafter
  obtain ⟨-, -, hact, -⟩ := step_spec hstep
  by_cases hchange : ∃ m c, g = .change m c
  · obtain ⟨m, c, rfl⟩ := hchange
    have heq : s'.dispatcher.world.shelf = (s.dispatcher.world.shelf.change m c).2 :=
      congrArg (·.world.shelf) (Option.some.inj hact).symm
    unfold World.bitmap
    rw [heq]
    by_cases hm : m = n
    · subst hm
      rw [Shelf.change_of_guarded hbefore]
    · rw [Shelf.change_eq, Shelf.get?_modify, if_neg hm]
  · have htrade := Gesture.trade h.trading (fun m c heq => hchange ⟨m, c, heq⟩) hact
    obtain ⟨t₀, ht₀, hcontent, -⟩ := htrade.ages.same n (Shelf.lt_numbers ht) t' ht'
    unfold World.bitmap
    rw [ht₀, ht']
    show t'.content.bitmap = t₀.content.bitmap
    rw [hcontent]

/-- **The bitmap that a task reads is frozen.** -/
theorem guards_pos (h : s.Solvent trips) {held : Holding Operation Product} (hheld : s.dispatcher.holding id = some held)
    {o : Operation} (hbody : held.body = some o) (hreads : o.reads n = true) :
    0 < s.dispatcher.world.shelf.guards n := by
  obtain ⟨c, hc, rfl⟩ := Option.map_eq_some_iff.1 hheld
  have hcell : c.reads n = true := by
    rw [Cell.reads, show c.body = some o from hbody]
    exact hreads
  rw [h.guards_eq]
  exact Nat.add_pos_right _ (List.countP_pos_iff.2 ⟨c, List.mem_of_getElem? hc, hcell⟩)

end Solvent

/-! ## Tasks that read a bitmap -/

/-- What is known of a task that reads a bitmap: while it is in flight, the bitmap holds what it held at the start, and
all that the task has made, and all that it is settled with, is of some kind. -/
structure Reading (s : Scene) (id n : Nat) (a : Assignment) (b : Bitmap) (p : Product → Prop) : Prop where
  known : ∃ held, s.dispatcher.holding id = some held
  body : ∀ (held : Holding Operation Product) (o : Operation), s.dispatcher.holding id = some held → held.body = some o →
    o.assignment = some a ∧ o.request.bitmap? = some n ∧ s.dispatcher.world.bitmap n = b ∧
      ∀ (k : Nat) (product : Product), o.slots[k]? = some (some product) → p product
  settled : ∀ product, (id, .ok product) ∈ s.dispatcher.outcomes → p product

variable {a : Assignment} {b : Bitmap} {p q : Product → Prop} {r : Request}

theorem Reading.mono (h : s.Reading id n a b p) (hpq : ∀ product, p product → q product) : s.Reading id n a b q :=
  ⟨h.known, fun held o hheld hbody =>
    let ⟨ha, hreads, hbitmap, hslots⟩ := h.body held o hheld hbody
    ⟨ha, hreads, hbitmap, fun k product hslot => hpq product (hslots k product hslot)⟩,
    fun product hmem => hpq product (h.settled product hmem)⟩

/-- A bitmap that a task reads before and after a step is what it was, and what is in the slots that has not just been put
there is of the kind it was. -/
theorem Reading.keeps (h : s.Reading id n a b p) (hsolvent : s.Solvent trips)
    (hstep : s.step? (Operation.faltering trips) g = some s') (hpq : ∀ product, p product → q product)
    {held held' : Holding Operation Product} {o o' : Operation} (hheld : s.dispatcher.holding id = some held)
    (hbody : held.body = some o) (hheld' : s'.dispatcher.holding id = some held') (hbody' : held'.body = some o')
    (hassignment : o'.assignment = o.assignment) (hrequest : o'.request.bitmap? = o.request.bitmap?)
    (hslots : ∀ (k : Nat) (product : Product), o'.slots[k]? = some (some product) →
      o.slots[k]? = some (some product) ∨ q product) :
    o'.assignment = some a ∧ o'.request.bitmap? = some n ∧ s'.dispatcher.world.bitmap n = b ∧
      ∀ (k : Nat) (product : Product), o'.slots[k]? = some (some product) → q product := by
  obtain ⟨ha, hreads, hholds, hmade⟩ := h.body held o hheld hbody
  have ha' := hassignment.trans ha
  have hreads' := hrequest.trans hreads
  have hbefore := hsolvent.guards_pos hheld hbody (Operation.reads_of ha hreads)
  have hafter := (hsolvent.step hstep).guards_pos hheld' hbody' (Operation.reads_of ha' hreads')
  refine ⟨ha', hreads', (hsolvent.bitmap_step hstep hbefore hafter).trans hholds, fun k product hslot => ?_⟩
  exact (hslots k product hslot).elim (fun hslot => hpq product (hmade k product hslot)) fun hnew => hnew

/-- What a task that reads a bitmap is settled with was in a slot of its body. -/
theorem Reading.given (h : s.Reading id n a b p) {c : Cell Operation Product} {w w' : World} {o : Operation}
    {outcome : Except Fault Product} {product : Product} {promise : Promise (Except Fault Product)} {stopping : Bool}
    (hc : s.dispatcher.cells[id]? = some c) (hbody : c.body = some o)
    (hcloses : Closes (Operation.faltering trips) c.fault s.dispatcher.world o outcome w)
    (hsettles : Settles (Operation.faltering trips) stopping w c.settlement.promise outcome w' promise
      (some (.ok product))) : p product := by
  obtain rfl : outcome = .ok product := by
    generalize htold : some (Except.ok product : Except Fault Product) = told at hsettles
    cases hsettles with
    | discarded => cases htold
    | _ => exact (Option.some.inj htold).symm
  obtain ⟨-, hreads, -, hmade⟩ := h.body _ o (Dispatcher.holding_of_cells (h := c.holding) hc rfl) hbody
  generalize c.fault = fault at hcloses
  cases hcloses with
  | asked hresult => exact hmade 0 product (Operation.slots_of_result hreads (Option.some.inj hresult))

theorem Reading.same (h : s.Reading id n a b p) (hsolvent : s.Solvent trips)
    (hstep : s.step? (Operation.faltering trips) g = some s') (hpq : ∀ product, p product → q product)
    (hholding : s'.dispatcher.holding id = s.dispatcher.holding id)
    (houtcomes : ∀ outcome, (id, outcome) ∈ s'.dispatcher.outcomes → (id, outcome) ∈ s.dispatcher.outcomes) :
    s'.Reading id n a b q := by
  refine ⟨hholding ▸ h.known, fun held o hheld hbody => ?_, fun product hmem =>
    hpq product (h.settled _ (houtcomes _ hmem))⟩
  exact h.keeps hsolvent hstep hpq (hholding ▸ hheld) hbody hheld hbody rfl rfl fun _ _ hslot => .inl hslot

/-- **A deed of a task that reads a bitmap gives nothing but what was in its slots**, and puts nothing in them but what it
makes of what the bitmap held at the start. -/
theorem Reading.deed (h : s.Reading id n a b p) (hsolvent : s.Solvent trips) (hbecomes : r.Becomes a)
    (hbitmap : r.bitmap? = some n) (hstep : s.step? (Operation.faltering trips) g = some s')
    (hpq : ∀ product, p product → q product)
    (hgives : ∀ product, a.Gives b s.dispatcher.world.files product s'.dispatcher.world.files → q product)
    {c : Cell Operation Product} {held : Holding Operation Product} {told : Option (Except Fault Product)}
    {stopping : Bool} (hc : s.dispatcher.cells[id]? = some c)
    (hdeed : Deed (Operation.faltering trips) stopping c s.dispatcher.world s'.dispatcher.world held told)
    (hself : s'.dispatcher.holding id = some held)
    (houtcomes : s'.dispatcher.outcomes = (told.map (id, ·)).toList ++ s.dispatcher.outcomes) :
    s'.Reading id n a b q := by
  have hheld : s.dispatcher.holding id = some c.holding := Dispatcher.holding_of_cells hc rfl
  have hquiet : s'.dispatcher.outcomes = s.dispatcher.outcomes → ∀ {product : Product},
      (id, .ok product) ∈ s'.dispatcher.outcomes → p product := fun heq _ hmem => h.settled _ (heq ▸ hmem)
  -- the deed says what the world becomes, so the world has to be named before the cases
  obtain ⟨w, hworld⟩ : ∃ w, w = s'.dispatcher.world := ⟨_, rfl⟩
  rw [← hworld] at hdeed hgives
  cases hdeed with
  | @work o item hbody =>
    refine ⟨⟨_, hself⟩, fun held' o' hheld' hbody' => ?_, fun product hmem => hpq product (hquiet houtcomes hmem)⟩
    obtain rfl := Option.some.inj (hself.symm.trans hheld')
    obtain rfl := Option.some.inj hbody'
    obtain ⟨ha, -, hholds, -⟩ := h.body _ o hheld hbody
    have hwork := Operation.body_work trips s.dispatcher.world o item
    refine h.keeps hsolvent hstep hpq hheld hbody hself rfl ?_ ?_ fun k product hslot => ?_
    · rcases hwork with heq | heq | ⟨product, heq⟩ <;> rw [heq]
    · rcases hwork with heq | heq | ⟨product, heq⟩ <;> rw [heq]
      all_goals exact Operation.bitmap?_spent _
    · refine (Operation.gives_of_work hbecomes hbitmap ha hslot).imp_right fun hmade => hgives product ?_
      rwa [← hholds]
  | @conclude o outcome w₁ w₂ promise told hbody hclaimed hcloses hsettles =>
    refine ⟨⟨_, hself⟩, fun held' o' hheld' hbody' => ?_, fun product hmem => hpq product ?_⟩
    · obtain rfl := Option.some.inj (hself.symm.trans hheld')
      cases hbody'
    · rw [houtcomes, List.mem_append] at hmem
      refine hmem.elim (fun hmem => ?_) (h.settled product)
      obtain ⟨outcome', htold, heq⟩ := Option.map_eq_some_iff.1 (Option.mem_toList.1 hmem)
      obtain rfl : outcome' = .ok product := congrArg Prod.snd heq
      subst htold
      exact h.given hc hbody hcloses hsettles
  | ask | forget =>
    refine ⟨⟨_, hself⟩, fun held' o' hheld' hbody' => ?_, fun product hmem => hpq product (hquiet houtcomes hmem)⟩
    obtain rfl := Option.some.inj (hself.symm.trans hheld')
    exact h.keeps hsolvent hstep hpq hheld hbody' hself hbody' rfl rfl fun _ _ hslot => .inl hslot

/-- **A task gives nothing but what it made from what its bitmap held at the start.** -/
theorem Reading.step (h : s.Reading id n a b p) (hsolvent : s.Solvent trips) (hbecomes : r.Becomes a)
    (hbitmap : r.bitmap? = some n) (hstep : s.step? (Operation.faltering trips) g = some s') :
    s'.Reading id n a b fun product =>
      p product ∨ a.Gives b s.dispatcher.world.files product s'.dispatcher.world.files := by
  obtain ⟨-, -, hact, -⟩ := step_spec hstep
  have hregular := hsolvent.trading.making.regular
  have hdoes := Dispatcher.does_of_act faltering_returns hregular.held hregular.sound hact
  generalize g.act s.dispatcher.world = act at hdoes
  cases hdoes with
  | idle _ hholding houtcomes | releaseValue _ hholding houtcomes | surround _ hholding houtcomes =>
    exact h.same hsolvent hstep (fun _ => .inl) (hholding id) fun _ hmem => houtcomes ▸ hmem
  | spawn _ hself hothers houtcomes =>
    refine h.same hsolvent hstep (fun _ => .inl) (hothers id fun hid => ?_) fun _ hmem => houtcomes ▸ hmem
    obtain ⟨held, hheld⟩ := h.known
    obtain ⟨c, hc, -⟩ := Option.map_eq_some_iff.1 hheld
    rw [← hid, List.getElem?_eq_none (Nat.le_refl _)] at hc
    cases hc
  | @deed _ id₀ c held told hc hdeed hmover hself hothers houtcomes =>
    by_cases hid : id₀ = id
    · subst hid
      exact h.deed hsolvent hbecomes hbitmap hstep (fun _ => .inl) (fun _ => .inr) hc hdeed hself houtcomes
    · refine h.same hsolvent hstep (fun _ => .inl) (hothers id hid) fun outcome hmem => ?_
      rw [houtcomes, List.mem_append] at hmem
      refine hmem.resolve_left fun hmem => hid ?_
      obtain ⟨outcome', -, heq⟩ := Option.map_eq_some_iff.1 (Option.mem_toList.1 hmem)
      exact congrArg Prod.fst heq

/-- Whether an assignment gives a product at some step of a tour, from what a bitmap held at the start. -/
def MadeAlong (trips : World → Operation → Nat → Option (Option String)) (s : Scene) (gs : List Gesture) (a : Assignment)
    (b : Bitmap) (product : Product) : Prop :=
  ∃ before g after u v, gs = before ++ g :: after ∧ s.tour? (Operation.faltering trips) before = some u ∧
    u.step? (Operation.faltering trips) g = some v ∧
    a.Gives b u.dispatcher.world.files product v.dispatcher.world.files

theorem Reading.tour (h : s.Reading id n a b fun _ => False) (hsolvent : s.Solvent trips) (hbecomes : r.Becomes a)
    (hbitmap : r.bitmap? = some n) (htour : s.tour? (Operation.faltering trips) gs = some s') :
    s'.Reading id n a b (s.MadeAlong trips gs a b) := by
  induction gs using List.reverseRecOn generalizing s' with
  | nil =>
    obtain rfl := Option.some.inj htour
    exact h.mono fun _ => False.elim
  | append_singleton gs g ih =>
    rw [tour?_append] at htour
    obtain ⟨t, hgs, hlast⟩ := Option.bind_eq_some_iff.1 htour
    obtain ⟨t', hstep, hend⟩ := Option.bind_eq_some_iff.1 hlast
    obtain rfl := Option.some.inj hend
    refine ((ih hgs).step (solvent_of_tour hsolvent hgs) hbecomes hbitmap hstep).mono fun product hmade => ?_
    rcases hmade with ⟨before, g', after, u, v, rfl, hbefore, hstep', hgives⟩ | hgives
    · exact ⟨before, g', after ++ [g], u, v, by simp, hbefore, hstep', hgives⟩
    · exact ⟨gs, g, [], t, t', rfl, hgs, hstep, hgives⟩

end Scene

namespace Product

def text? : Product → Option (Bytes × Nat)
  | text bytes charge => some (bytes, charge)
  | _ => none

end Product

end BitmapWorks
