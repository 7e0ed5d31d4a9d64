import BitmapWorks.Proofs.Dispatcher.Deeds
import BitmapWorks.Proofs.Operation.Trades
/-!
# Estate — what tasks own, and what their acts pay for

A task owns what its body owns, and what comes with the outcome that waits in its promise.  Every act of a dispatcher
pays for what it gives (`Trading.trade`): work makes products and puts their bytes into a tally, completing a task puts
its tally into the total, and concluding it gives the outcome away and drops all the rest.

The work of a task may end abnormally at any call.
-/
namespace BitmapWorks

variable {trips : World → Operation → Nat → Option (Option String)}

/-! ## What tasks own -/

/-- What a task owns: what its body does, and what comes with the outcome that waits in its promise. -/
def Cell.assets (c : Cell Operation Product) : Multiset Asset :=
  c.body.elim 0 Operation.assets + c.settlement.promise.waiting.elim 0 Product.assetsOf

namespace Dispatcher

def assets (d : Dispatcher World Operation Product) : Multiset Asset := (d.cells.map Cell.assets).sum

def pending (d : Dispatcher World Operation Product) : Int := (d.cells.map Cell.tally).sum

def called (d d' : Dispatcher World Operation Product) : Multiset Asset :=
  ((d'.outcomes.take (d'.outcomes.length - d.outcomes.length)).map fun (id, outcome) =>
    if (d.cells[id]?).bind (·.settlement.sink) = some (.callback false) then Product.assetsOf outcome else 0).sum

end Dispatcher

def Polled.assets : Polled (Except Fault Product) → Multiset Asset
  | ready outcome => Product.assetsOf outcome
  | _ => 0

namespace Act

def paid : Act World Operation Product → Multiset Asset
  | spawn o _ => o.request.assets
  | releaseValue v => v.assets
  | _ => 0

def gained (d d' : Dispatcher World Operation Product) : Act World Operation Product → Multiset Asset
  | move _ => d.called d'
  | take id => (d.take id).1.elim 0 Product.assetsOf
  | poll id => (d.poll id).1.assets
  | _ => 0

end Act

/-! ## Promises and sinks -/

section

variable {p : Promise (Except Fault Product)} {w w' : World} {outcome : Except Fault Product} {fault : Fault}

theorem assets_take (p : Promise (Except Fault Product)) (fault : Fault) :
    (p.take (.error fault)).1.elim 0 Product.assetsOf + (p.take (.error fault)).2.waiting.elim 0 Product.assetsOf =
      p.waiting.elim 0 Product.assetsOf := by
  obtain ⟨line, connected, taken, dropped⟩ := p
  cases line <;> cases connected <;> cases taken <;> cases dropped <;>
    simp [Promise.take, Promise.receive, Promise.waiting, Product.assetsOf]

theorem assets_poll (p : Promise (Except Fault Product)) (fault : Fault) :
    (p.poll (.error fault)).1.assets + (p.poll (.error fault)).2.waiting.elim 0 Product.assetsOf =
      p.waiting.elim 0 Product.assetsOf := by
  obtain ⟨line, connected, taken, dropped⟩ := p
  cases line <;> cases connected <;>
    simp [Promise.poll, Promise.receive, Promise.waiting, Polled.assets, Product.assetsOf]

theorem trade_lose (w : World) (outcome : Except Fault Product) :
    Trade w ((Operation.faltering trips).lose w outcome) (Product.assetsOf outcome) 0 0 := by
  cases outcome with
  | error fault => exact .refl w 0
  | ok product => exact Operation.trade_release w product

/-- **A body is used up for its outcome**, and what it owns besides is dropped. -/
theorem Closes.trade {fault : Option Fault} {o : Operation} (h : Closes (Operation.faltering trips) fault w o outcome w')
    (hslots : o.Slotted) : Trade w w' o.assets (Product.assetsOf outcome) 0 := by
  have hclean := Operation.trade_cleanUp w o
  cases h with
  | failed => exact (hclean.trans (Operation.trade_discard _ _)).cast rfl rfl rfl
  | asked hresult =>
    obtain rfl := Option.some.inj hresult
    exact (hclean.trans (Operation.trade_result (o := (Operation.cleanUp w o).2) hslots rfl _)).cast rfl rfl rfl

theorem waiting_discard {s : Settlement (Except Fault Product)} (hquiet : s.promise.waiting = none) :
    s.discard.promise.waiting = none := by
  unfold Settlement.discard
  split
  · rfl
  · exact hquiet

/-- **An outcome goes to the promise or to the caller's function**, or is dropped. -/
theorem Puts.trade {skips : Bool} {s s' : Settlement (Except Fault Product)} {told : Option (Except Fault Product)}
    (h : Puts (Operation.faltering trips) skips w s outcome w' s' told) (hquiet : s.promise.waiting = none) :
    Trade w w' (Product.assetsOf outcome)
      ((told.elim 0 fun outcome => if s.sink = some (.callback false) then Product.assetsOf outcome else 0) +
        s'.promise.waiting.elim 0 Product.assetsOf) 0 := by
  cases h with
  | kept hskips hsink hdropped =>
    refine (Trade.refl w _).cast rfl ?_ rfl
    simp [hsink, Promise.waiting]
  | called hskips hsink =>
    refine (Trade.refl w _).cast rfl ?_ rfl
    simp [hsink, hquiet]
  | lost hskips hsink hdropped =>
    refine (trade_lose w outcome).cast rfl ?_ rfl
    simp [hsink, hquiet]
  | discarded hskips =>
    refine (trade_lose w outcome).cast rfl ?_ rfl
    simp [waiting_discard hquiet]

theorem Puts.le_told {skips : Bool} {s s' : Settlement (Except Fault Product)} {told : Option (Except Fault Product)}
    (h : Puts (Operation.faltering trips) skips w s outcome w' s' told) (hquiet : s.promise.waiting = none) :
    (told.elim 0 fun outcome => if s.sink = some (.callback false) then Product.assetsOf outcome else 0) +
      s'.promise.waiting.elim 0 Product.assetsOf ≤ told.elim 0 Product.assetsOf := by
  cases h with
  | kept hskips hsink hdropped =>
    simp only [hsink, Option.elim_some, reduceCtorEq, Option.some.injEq, if_false, zero_add]
    exact le_refl _
  | called hskips hsink =>
    simp only [hsink, Option.elim_some, if_true, hquiet, Option.elim_none, add_zero]
    exact le_refl _
  | lost hskips hsink hdropped =>
    simp only [hsink, Option.elim_some, reduceCtorEq, Option.some.injEq, if_false, hquiet, Option.elim_none, add_zero]
    exact Multiset.zero_le _
  | discarded hskips =>
    simp only [waiting_discard hquiet, Option.elim_none, add_zero]
    exact Multiset.zero_le _

end

/-! ## Acts -/

theorem Trade.congr_tally {w w' : World} {paid given : Multiset Asset} {tally tally' : Int}
    (h : Trade w w' paid given tally) (heq : Ledger.wrap tally' = Ledger.wrap tally) : Trade w w' paid given tally' := by
  refine ⟨h.ages, fun rest pending haccounts => (h.accounts rest pending haccounts).congr_pending ?_⟩
  rw [← Ledger.wrap_add_wrap, heq, Ledger.wrap_add_wrap]

theorem faltering_returns : (Operation.faltering trips).Returns := ⟨fun _ _ => rfl, fun _ _ => nofun⟩

namespace Dispatcher

variable {d d' : Dispatcher World Operation Product} {a : Act World Operation Product} {c c' : Cell Operation Product}
variable {id : Nat}

theorem called_of_same (h : d'.outcomes = d.outcomes) : d.called d' = 0 := by
  unfold called
  rw [h, Nat.sub_self]
  rfl

theorem called_of_told {told : Option (Except Fault Product)} (hc : d.cells[id]? = some c)
    (h : d'.outcomes = (told.map (id, ·)).toList ++ d.outcomes) : d.called d' = told.elim 0 fun outcome =>
      if c.settlement.sink = some (.callback false) then Product.assetsOf outcome else 0 := by
  have hlength : d'.outcomes.length - d.outcomes.length = (told.map (id, ·)).toList.length := by
    rw [h, List.length_append, Nat.add_sub_cancel]
  have htake : d'.outcomes.take (d'.outcomes.length - d.outcomes.length) = (told.map (id, ·)).toList := by
    rw [hlength, h, List.take_left]
  unfold called
  rw [htake]
  cases told with
  | none => rfl
  | some outcome => simp [hc]

theorem gained_of_idle (hidles : a.idles = true) (hasked : ∀ id, a.asked? = some id → d.cells[id]? = none)
    (houtcomes : d'.outcomes = d.outcomes) : a.paid = 0 ∧ a.gained d d' = 0 := by
  cases a with
  | move m => exact ⟨rfl, called_of_same houtcomes⟩
  | take id => simp [Act.paid, Act.gained, Dispatcher.take, hasked id rfl]
  | poll id => simp [Act.paid, Act.gained, Dispatcher.poll, hasked id rfl, Polled.assets]
  | pumpAll | untilIdle | shutdown | dropPromise => exact ⟨rfl, rfl⟩
  | _ => cases hidles

/-- Tasks that have neither a body nor an outcome that waits own nothing. -/
theorem assets_eq_zero (h : ∀ c ∈ d.cells, c.body = none ∧ c.settlement.promise.waiting = none) : d.assets = 0 := by
  refine List.sum_eq_zero fun assets hmem => ?_
  obtain ⟨c, hc, rfl⟩ := List.mem_map.1 hmem
  obtain ⟨hbody, hwaiting⟩ := h c hc
  rw [Cell.assets, hbody, hwaiting]
  rfl

/-- What a dispatcher is like whose tasks started as requests: no outcome waits for a task that has its body. -/
structure Trading (trips : World → Operation → Nat → Option (Option String)) (d : Dispatcher World Operation Product) :
    Prop where
  making : d.Making (Operation.faltering trips) fun o => ∃ r, Operation.Started r o
  quiet : ∀ id h, d.holding id = some h → h.body ≠ none → h.promise.waiting = none

theorem trade_set {paid gained : Multiset Asset} {tally : Int} (hc : d.cells[id]? = some c)
    (hcells : d'.cells = d.cells.set id c') (h : Trade d.world d'.world (paid + c.assets) (gained + c'.assets) tally)
    (htally : Ledger.wrap c'.tally = Ledger.wrap (c.tally + tally)) :
    Trade d.world d'.world (paid + d.assets) (gained + d'.assets) (d'.pending - d.pending) := by
  obtain ⟨rest, hbefore, hafter⟩ := exists_sum_set hc Cell.assets
  obtain ⟨others, hbefore', hafter'⟩ := exists_sum_set hc Cell.tally
  unfold assets pending
  rw [hcells, hbefore, hafter, hbefore', hafter', ← add_assoc, ← add_assoc]
  refine (h.frame rest).congr_tally ?_
  have heq : c'.tally + others - (c.tally + others) = -c.tally + c'.tally := by omega
  rw [heq, ← Ledger.wrap_add_wrap, htally, Ledger.wrap_add_wrap]
  congr 1
  omega

theorem trade_set_of_tally {paid gained : Multiset Asset} (hc : d.cells[id]? = some c)
    (hcells : d'.cells = d.cells.set id c') (htally : c'.tally = c.tally)
    (h : Trade d.world d'.world (paid + c.assets) (gained + c'.assets) 0) :
    Trade d.world d'.world (paid + d.assets) (gained + d'.assets) (d'.pending - d.pending) :=
  trade_set hc hcells h (by rw [htally, Int.add_zero])

theorem trade_concat {paid : Multiset Asset} (hcells : d'.cells = d.cells ++ [c])
    (h : Trade d.world d'.world paid c.assets 0) (htally : c.tally = 0) :
    Trade d.world d'.world (paid + d.assets) (0 + d'.assets) (d'.pending - d.pending) := by
  have hassets : d'.assets = c.assets + d.assets := by
    unfold assets
    rw [hcells, List.map_append, List.sum_append, List.map_singleton, List.sum_singleton, add_comm]
  have hpending : d'.pending = d.pending := by
    unfold pending
    rw [hcells, List.map_append, List.sum_append, List.map_singleton, List.sum_singleton, htally, Int.add_zero]
  rw [hassets, hpending, Int.sub_self, zero_add]
  exact h.frame d.assets

theorem trade_same {paid gained : Multiset Asset} (hcells : d'.cells = d.cells)
    (h : Trade d.world d'.world paid gained 0) :
    Trade d.world d'.world (paid + d.assets) (gained + d'.assets) (d'.pending - d.pending) := by
  rw [assets, assets, pending, pending, hcells, Int.sub_self]
  exact h.frame _

theorem trade_of_idle (hidles : a.idles = true) (hasked : ∀ id, a.asked? = some id → d.cells[id]? = none)
    (hworld : d'.world = d.world) (hcells : d'.cells = d.cells) (hlevel : Level d d') :
    Trade d.world d'.world (a.paid + d.assets) (a.gained d d' + d'.assets) (d'.pending - d.pending) := by
  obtain ⟨hpaid, hgained⟩ := gained_of_idle hidles hasked hlevel.outcomes
  rw [hpaid, hgained]
  refine trade_same hcells ?_
  rw [hworld]
  exact .refl _ 0

theorem trade_of_stir (hc : d.cells[id]? = some c) (halike : c.Alike c') (hcells : d'.cells = d.cells.set id c')
    (hworld : d'.world = d.world) :
    Trade d.world d'.world (0 + d.assets) (0 + d'.assets) (d'.pending - d.pending) := by
  have hassets : c'.assets = c.assets := by rw [Cell.assets, Cell.assets, halike.body, halike.settlement]
  refine trade_set_of_tally hc hcells halike.tally ?_
  rw [hassets, hworld]
  exact .refl _ _

/-- **A call pays with its tally for what it makes**, if the slot that it fills is vacant. -/
theorem trade_of_work {o : Operation} {item : Nat} (hc : d.cells[id]? = some c) (hbody : c.body = some o)
    (hvacant : o.Vacant item)
    (hcells : d'.cells = d.cells.set id (c.afterWork ((Operation.faltering trips).work d.world o item)))
    (hworld : d'.world = ((Operation.faltering trips).work d.world o item).world) :
    Trade d.world d'.world (0 + d.assets) (0 + d'.assets) (d'.pending - d.pending) := by
  have hcall := hvacant.call trips d.world
  refine trade_set hc hcells (?_ : Trade _ _ _ _ ((Operation.faltering trips).work d.world o item).tally) ?_
  · rw [hworld, Cell.assets, hbody]
    exact (hcall.trade.frame _).cast (zero_add _) (zero_add _) rfl
  · exact Int.bmod_bmod

/-- **A visit pays for what it gives**: what the caller gets came out of a promise, or is lost with it. -/
theorem trade_of_visit (hdeal : Deal (Operation.faltering trips) d d' a) (ha : a.visits = true) :
    Trade d.world d'.world (a.paid + d.assets) (a.gained d d' + d'.assets) (d'.pending - d.pending) := by
  cases hdeal with
  | idle hidles hasked hworld hcells hlevel => exact trade_of_idle hidles hasked hworld hcells hlevel
  | @take id c hc hcells hworld hlevel =>
    refine trade_set_of_tally hc hcells rfl ?_
    rw [hworld]
    refine (Trade.refl d.world c.assets).cast (zero_add _) ?_ rfl
    rw [Act.gained, Dispatcher.take, hc]
    exact (add_left_comm _ _ _).trans (congrArg (c.body.elim 0 Operation.assets + ·) (assets_take _ .shuttingDown))
  | @poll id c hc hcells hworld hlevel =>
    refine trade_set_of_tally hc hcells rfl ?_
    rw [hworld]
    refine (Trade.refl d.world c.assets).cast (zero_add _) ?_ rfl
    rw [Act.gained, Dispatcher.poll, hc]
    exact (add_left_comm _ _ _).trans (congrArg (c.body.elim 0 Operation.assets + ·) (assets_poll _ .shuttingDown))
  | @forget id c hc hcells hworld hlevel =>
    refine trade_set_of_tally hc hcells rfl ?_
    have hlost : Trade d.world d'.world (c.settlement.promise.waiting.elim 0 Product.assetsOf) 0 0 := by
      rw [hworld]
      cases c.settlement.promise.waiting with
      | none => exact .refl _ 0
      | some outcome => exact trade_lose d.world outcome
    exact (hlost.frame (c.body.elim 0 Operation.assets)).cast ((zero_add _).trans (add_comm _ _))
      (congrArg (0 + ·) (add_zero _)) rfl
  | @releaseValue v hworld hcells hlevel =>
    refine trade_same hcells ?_
    rw [hworld]
    exact Operation.trade_release d.world v
  | _ => cases ha

/-- **Every act pays for what it gives**: what the caller and the tasks own is what they owned before, but for what was
made, and that is in the tallies. -/
theorem Trading.trade (h : d.Trading trips) (hdeal : Deal (Operation.faltering trips) d d' a)
    (hrequest : ∀ o sink, a = .spawn o sink → ∃ r, o = .ofRequest r) (hsurround : ∀ w, a ≠ .surround w) :
    Trade d.world d'.world (a.paid + d.assets) (a.gained d d' + d'.assets) (d'.pending - d.pending) := by
  by_cases hvisits : a.visits = true
  · exact trade_of_visit hdeal hvisits
  cases hdeal with
  | idle hidles hasked hworld hcells hlevel => exact trade_of_idle hidles hasked hworld hcells hlevel
  | stir hc halike hcells hworld hlevel =>
    rw [Act.gained, called_of_same hlevel.outcomes]
    exact trade_of_stir hc halike hcells hworld
  | work hc hbody hrun hcells hworld hlevel =>
    obtain ⟨-, o₀, ⟨r, hstart⟩, items, hwrought, hnot, hitem⟩ := h.making.call hc hbody hrun
    rw [Act.gained, called_of_same hlevel.outcomes]
    exact trade_of_work hc hbody (Operation.vacant_of_wrought hstart hwrought hnot hitem) hcells hworld
  | @credit id c hc hclaimed hcells hworld hlevel =>
    -- the tally goes from the task into the total, so what is pending falls by as much
    refine trade_set hc hcells (?_ : Trade _ _ _ _ (-c.tally)) ?_
    · rw [hworld, Act.gained, called_of_same hlevel.outcomes]
      exact ((World.trade_credit d.world c.tally).frame c.assets)
    · rw [Int.add_right_neg]
      rfl
  | @conclude id c o outcome w settlement told hc hbody hclaimed hhead hcloses hputs hcells hregistry hadmission
      houtcomes =>
    obtain ⟨o₀, ⟨r, hstart⟩, hcrafted⟩ := h.making.crafted id c hc
    obtain ⟨items, hwrought, -⟩ := hcrafted.body o hbody
    have hquiet : c.settlement.promise.waiting = none :=
      h.quiet id _ (holding_of_cells hc rfl) fun hnone => by cases hbody.symm.trans hnone
    -- the body gives its outcome, and then the outcome goes wherever the sink lets it
    have htrade := (hcloses.trade (Operation.slotted_of_wrought hstart hwrought)).trans (hputs.trade hquiet)
    refine trade_set_of_tally hc hcells rfl ?_
    rw [Act.gained, called_of_told hc houtcomes, Cell.assets, hbody, hquiet]
    refine htrade.cast ?_ ?_ rfl
    · exact (zero_add _).trans (add_zero _)
    · exact congrArg _ (zero_add _)
  | @reject o sink fault hchecked hcells hworld =>
    obtain ⟨r, rfl⟩ := hrequest o sink rfl
    refine trade_concat hcells ?_ rfl
    rw [hworld]
    exact (Operation.trade_prepare d.world r).cast rfl (add_zero _) rfl
  | @letIn o sink fanout hchecked hinside hcells hworld =>
    obtain ⟨r, rfl⟩ := hrequest o sink rfl
    refine trade_concat hcells ?_ rfl
    rw [hworld]
    exact (Operation.trade_prepare d.world r).cast rfl (add_zero _) rfl
  | shutdown hworld hcells | regate hworld hcells =>
    refine trade_same hcells ?_
    rw [hworld]
    exact .refl _ 0
  | surround => exact absurd rfl (hsurround _)
  | take | poll | forget | releaseValue => exact absurd rfl hvisits

/-- **Every act keeps track of how the bodies came about**, and no outcome waits for a task that has its body. -/
theorem Trading.act (h : d.Trading trips) (ha : a.returns = true)
    (hrequest : ∀ o sink, a = .spawn o sink → ∃ r, o = .ofRequest r)
    (hact : d.act? (Operation.faltering trips) a = some d') : d'.Trading trips := by
  refine ⟨h.making.act faltering_returns ha (fun o sink hspawn => ?_) hact, fun id h' hh' hbody => ?_⟩
  · obtain ⟨r, rfl⟩ := hrequest o sink hspawn
    exact ⟨r, Operation.started_prepare d.world r⟩
  · cases does_of_act faltering_returns h.making.regular.held h.making.regular.sound hact with
    | idle _ hsame => exact h.quiet id h' ((hsame id).symm.trans hh') hbody
    | releaseValue _ hsame => exact h.quiet id h' ((hsame id).symm.trans hh') hbody
    | surround _ hsame => exact h.quiet id h' ((hsame id).symm.trans hh') hbody
    | spawn _ hself hothers =>
      by_cases hid : d.cells.length = id
      · subst hid
        obtain rfl := Option.some.inj (hself.symm.trans hh')
        rfl
      · exact h.quiet id h' ((hothers id hid).symm.trans hh') hbody
    | @deed _ id₀ c h₀ told hc hdeed hmover hself hothers =>
      by_cases hid : id₀ = id
      · subst hid
        obtain rfl := Option.some.inj (hself.symm.trans hh')
        have hquiet : c.body ≠ none → c.settlement.promise.waiting = none := h.quiet id₀ _ (holding_of_cells hc rfl)
        generalize d'.world = w at hdeed
        cases hdeed with
        | work item hb => exact hquiet (by rw [hb]; exact nofun)
        | conclude => exact absurd rfl hbody
        | ask hwaiting => exact hwaiting.elim (fun hsame => hsame.trans (hquiet hbody)) id
        | forget => rfl
      · exact h.quiet id h' ((hothers id hid).symm.trans hh') hbody

end Dispatcher
end BitmapWorks
