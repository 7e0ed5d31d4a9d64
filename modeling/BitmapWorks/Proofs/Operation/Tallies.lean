import BitmapWorks.Proofs.Operation.Provenance
/-!
# Tallies — what stands for the bytes that a task has made

What a task makes is charged at once, but goes into the total only when the task is claimed.  Until then the tally of the
task stands for just what the task has made (`Cell.Tallied`): the charges in its slots, unless they came with the caller's
buffer, and those of the bitmaps whose handles are in its slots.
-/
namespace BitmapWorks

variable {trips : World → Operation → Nat → Option (Option String)}

namespace Asset

@[simp] theorem total_ofHandle (bitmap : Option Nat) : total (ofHandle bitmap) = 0 := by
  cases bitmap <;> rfl

@[simp] theorem total_ofGuard (bitmap : Option Nat) : total (ofGuard bitmap) = 0 := by
  cases bitmap <;> rfl

end Asset

/-! ## What belongs to whom -/

namespace Operation

def borrows (o : Operation) : Bool := (o.assignment.bind Assignment.target?).isSome

/-- What the caller has lent to a body: its buffer, before and after it is written to. -/
def borrowed (o : Operation) : Multiset Asset :=
  Asset.ofCharge o.request.charge? + if o.borrows then slotAssets o.slots else 0

/-- What a body has made for itself. -/
def fresh (o : Operation) : Multiset Asset := if o.borrows then 0 else slotAssets o.slots

theorem total_assets (o : Operation) : Asset.total o.assets = Asset.total o.borrowed + Asset.total o.fresh := by
  unfold assets Request.assets borrowed fresh
  simp only [Asset.total_add, Asset.total_ofHandle, Asset.total_ofGuard]
  split <;> simp

/-- What a body has made adds this to the total, once its tally is in it. -/
def worth (bytes : Nat → Int) (o : Operation) : Int :=
  Asset.total o.fresh + ((Asset.bitmaps (slotAssets o.slots)).map bytes).sum

/-- **The tally of a call is what its product is worth.** -/
theorem Call.worth_eq {w w' : World} {o o' : Operation} {item : Nat} {tally : Int} (h : Call w o item w' o' tally)
    (hbytes : ∀ n ∈ Asset.bitmaps (slotAssets o.slots), w'.shelf.bytes n = w.shelf.bytes n) :
    o'.worth w'.shelf.bytes = o.worth w.shelf.bytes + tally := by
  have hkept : ((Asset.bitmaps (slotAssets o.slots)).map w'.shelf.bytes).sum =
      ((Asset.bitmaps (slotAssets o.slots)).map w.shelf.bytes).sum := congrArg _ (Multiset.map_congr rfl hbytes)
  cases h with
  | unassigned => exact (Int.add_zero _).symm
  | failed =>
    rw [Int.add_zero]
    exact congrArg (Asset.total o.fresh + ·) hkept
  | @filled a product w' bytes ha hyields hcharge hslot =>
    have hborrows : o.borrows = a.target?.isSome := by rw [borrows, ha]; rfl
    have hborrows' : (Operation.mk o.request.spent o.assignment o.guarded (o.slots.set item (some product))).borrows =
        a.target?.isSome := hborrows
    unfold worth fresh
    rw [hborrows, hborrows', slotAssets_set hslot, Asset.bitmaps_add, Multiset.map_add, Multiset.sum_add, hkept]
    cases hyields with
    | written _ htarget hassets hnames =>
      -- the product has the charge that came with the caller's buffer, or none as it is in a file
      have hnone : a.target?.isSome = true ∨ Asset.total product.assets = 0 := by
        rcases htarget with htarget | hempty
        · exact .inl (Option.isSome_iff_ne_none.2 htarget)
        · exact .inr (by rw [hempty]; rfl)
      have hentry : Ledger.entry 0 = 0 := rfl
      rw [hassets, Asset.bitmaps_ofCharge, ← hassets, hentry]
      rcases hnone with hsome | hzero
      · simp [hsome]
      · split <;> simp [hzero]
    | charged htarget hassets hnames =>
      rw [hassets, htarget]
      show Asset.total ({.charge bytes} + slotAssets o.slots) + (0 + _) = Asset.total (slotAssets o.slots) + _ + _
      rw [Multiset.singleton_add, Asset.total_cons, Asset.bytes]
      omega
    | @placed content htarget =>
      have hnew : (w.place content (some content.footprint)).2.shelf.bytes w.shelf.numbers =
          Ledger.entry content.footprint := by
        show ((w.shelf.put content (some content.footprint)).2.get? w.shelf.numbers).elim 0 Slot.bytes = _
        rw [Shelf.get?_put, if_pos rfl]
        rfl
      rw [htarget]
      show Asset.total ({.handle w.shelf.numbers} + slotAssets o.slots) +
        ((Multiset.map _ {w.shelf.numbers}).sum + _) = Asset.total (slotAssets o.slots) + _ + _
      have hhandle : (Asset.handle w.shelf.numbers).bytes = 0 := rfl
      rw [Multiset.singleton_add, Asset.total_cons, hhandle, Multiset.map_singleton, Multiset.sum_singleton, hnew]
      omega

end Operation

/-! ## Tallies -/

/-- Whether the tally of a task stands for what the task has made, until it goes into the total. -/
structure Cell.Tallied (bytes : Nat → Int) (c : Cell Operation Product) : Prop where
  flushed : c.settlement.claimed = true → c.tally = 0
  worth : c.settlement.claimed = false → ∀ o, c.body = some o → Ledger.wrap c.tally = Ledger.wrap (o.worth bytes)

namespace Cell.Tallied

variable {bytes bytes' : Nat → Int} {c c' : Cell Operation Product}

theorem congr (h : c.Tallied bytes) (hbytes : ∀ n ∈ c.made, bytes' n = bytes n)
    (hclaimed : c'.settlement.claimed = c.settlement.claimed) (hbody : c'.body = c.body) (htally : c'.tally = c.tally) :
    c'.Tallied bytes' := by
  refine ⟨fun hc' => htally.trans (h.flushed (hclaimed.symm.trans hc')), fun hc' o ho => ?_⟩
  have ho' := hbody.symm.trans ho
  rw [htally, h.worth (hclaimed.symm.trans hc') o ho']
  have hmade : ∀ n ∈ Asset.bitmaps (Operation.slotAssets o.slots), bytes n = bytes' n := fun n hn => by
    refine (hbytes n ?_).symm
    rw [Cell.made, ho']
    exact hn
  exact congrArg (fun m => Ledger.wrap (Asset.total o.fresh + m)) (congrArg _ (Multiset.map_congr rfl hmade))

end Cell.Tallied

namespace Scene

variable {s s' : Scene} {g : Gesture} {gs : List Gesture}

def Tallied (s : Scene) : Prop :=
  ∀ (id : Nat) (c : Cell Operation Product), s.dispatcher.cells[id]? = some c → c.Tallied s.dispatcher.world.shelf.bytes

/-- The bitmaps that a task has before and after a gesture have the charges they had. -/
theorem Traced.bytes_made (h : s.Traced) (hsolvent : s.Solvent trips)
    (hstep : s.step? (Operation.faltering trips) g = some s') :
    ∀ n ∈ s.dispatcher.made, n ∈ s'.dispatcher.made →
      s'.dispatcher.world.shelf.bytes n = s.dispatcher.world.shelf.bytes n := by
  intro n hn hn'
  obtain ⟨t, ht⟩ := (hsolvent.step hstep).present ⟨_, Multiset.mem_add.2 (.inr (Dispatcher.mem_of_made hn')), rfl⟩
  exact (hsolvent.bytes_step hstep).2 n (h.known n (Multiset.mem_add.2 (.inl hn))) t ht

namespace Tallied

section

variable (h : s.Tallied) (hbytes : ∀ n ∈ s.dispatcher.made, n ∈ s'.dispatcher.made →
  s'.dispatcher.world.shelf.bytes n = s.dispatcher.world.shelf.bytes n)
variable {id : Nat} {c c' : Cell Operation Product}

include h hbytes

theorem keeps {id' : Nat} (hc : s.dispatcher.cells[id]? = some c) (hc' : s'.dispatcher.cells[id']? = some c')
    (hclaimed : c'.settlement.claimed = c.settlement.claimed) (hbody : c'.body = c.body) (htally : c'.tally = c.tally) :
    c'.Tallied s'.dispatcher.world.shelf.bytes := by
  refine (h id c hc).congr (fun n hn => hbytes n ?_ ?_) hclaimed hbody htally
  · exact mem_sum_map.2 ⟨c, List.mem_of_getElem? hc, hn⟩
  · refine mem_sum_map.2 ⟨c', List.mem_of_getElem? hc', ?_⟩
    rwa [Cell.made, hbody]

theorem same (heq : s'.dispatcher.cells = s.dispatcher.cells) : s'.Tallied := fun _ _ hc =>
  h.keeps hbytes (heq ▸ hc) hc rfl rfl rfl

theorem set (hc : s.dispatcher.cells[id]? = some c) (heq : s'.dispatcher.cells = s.dispatcher.cells.set id c')
    (htallied : s'.dispatcher.cells[id]? = some c' → c'.Tallied s'.dispatcher.world.shelf.bytes) : s'.Tallied := by
  intro id' c'' hc''
  have hself : s'.dispatcher.cells[id]? = some c' := by
    rw [heq, List.getElem?_set_self (List.getElem?_eq_some_iff.1 hc).1]
  by_cases hid : id = id'
  · subst hid
    obtain rfl := Option.some.inj (hself.symm.trans hc'')
    exact htallied hself
  · have hold := hc''
    rw [heq, List.getElem?_set_ne hid] at hold
    exact h.keeps hbytes hold hc'' rfl rfl rfl

theorem concat {r : Request} (heq : s'.dispatcher.cells = s.dispatcher.cells ++ [c]) (htally : c.tally = 0)
    (hclaimed : c.settlement.claimed = false)
    (hbody : c.body = some (Operation.prepare s.dispatcher.world (.ofRequest r)).2.2) : s'.Tallied := by
  intro id c' hc'
  rcases Nat.lt_or_ge id s.dispatcher.cells.length with hlt | hge
  · have hold := hc'
    rw [heq, List.getElem?_append_left hlt] at hold
    exact h.keeps hbytes hold hc' rfl rfl rfl
  · rw [heq, List.getElem?_append_right hge] at hc'
    obtain rfl := List.mem_singleton.1 (List.mem_of_getElem? hc')
    refine ⟨fun hwon => (by cases hclaimed.symm.trans hwon), fun _ o ho => ?_⟩
    obtain rfl := Option.some.inj (hbody.symm.trans ho)
    have hempty := (Operation.started_prepare s.dispatcher.world r).slotAssets_eq
    rw [htally, Operation.worth, Operation.fresh, hempty, ite_self]
    rfl

/-- **A call adds to the tally what its product is worth.** -/
theorem work (hsolvent : s.Solvent trips) {i item : Nat} {o : Operation} (hc : s.dispatcher.cells[id]? = some c)
    (hbody : c.body = some o) (hrun : s.dispatcher.crew.running? i = some (.single id .calling) ∧ item = 0 ∨
      s.dispatcher.crew.running? i = some (.part id (.calling item)))
    (heq : s'.dispatcher.cells =
      s.dispatcher.cells.set id (c.afterWork ((Operation.faltering trips).work s.dispatcher.world o item)))
    (hworld : s'.dispatcher.world = ((Operation.faltering trips).work s.dispatcher.world o item).world) : s'.Tallied := by
  obtain ⟨hrunning, o₀, ⟨r, hstart⟩, items, hwrought, hnot, hitem⟩ := hsolvent.trading.making.call hc hbody hrun
  have hcall := (Operation.vacant_of_wrought hstart hwrought hnot hitem).call trips s.dispatcher.world
  have hopen : c.settlement.claimed = false :=
    (((hsolvent.trading.making.regular.sound id).staged c hc).of_isOpen (Staged.isOpen_of_queued (.inr hrunning))).1
  refine h.set hbytes hc heq fun hc' => ⟨fun hwon => (by cases hopen.symm.trans hwon), fun _ o' ho' => ?_⟩
  obtain rfl := Option.some.inj ho'
  -- what the task had made before the call is still its own, and still has its charge
  have hmade : ∀ n ∈ Asset.bitmaps (Operation.slotAssets o.slots),
      s'.dispatcher.world.shelf.bytes n = s.dispatcher.world.shelf.bytes n := fun n hn => by
    refine hbytes n (mem_sum_map.2 ⟨c, List.mem_of_getElem? hc, ?_⟩) (mem_sum_map.2 ⟨_, List.mem_of_getElem? hc', ?_⟩)
    · rw [Cell.made, hbody]
      exact hn
    · show n ∈ Asset.bitmaps
        (Operation.slotAssets ((Operation.faltering trips).work s.dispatcher.world o item).body.slots)
      rcases hcall.passes.2 with hsame | ⟨hnew, -⟩
      · rw [hsame]
        exact hn
      · rw [hnew]
        exact Multiset.mem_cons_of_mem hn
  have hwrap : ∀ m : Int, Ledger.wrap (Ledger.wrap m) = Ledger.wrap m := fun m => Int.bmod_bmod
  rw [hworld] at hmade ⊢
  rw [hcall.worth_eq hmade]
  show Ledger.wrap (Ledger.wrap (c.tally + _)) = _
  rw [hwrap, Int.add_comm, ← Ledger.wrap_add_wrap, (h id c hc).worth hopen o hbody, Ledger.wrap_add_wrap, Int.add_comm]

end

theorem step (h : s.Tallied) (htraced : s.Traced) (hsolvent : s.Solvent trips)
    (hstep : s.step? (Operation.faltering trips) g = some s') : s'.Tallied := by
  have hbytes := htraced.bytes_made hsolvent hstep
  obtain ⟨-, -, hact, -⟩ := step_spec hstep
  have hregular := hsolvent.trading.making.regular
  have hdeal := Dispatcher.deal_of_act faltering_returns hregular.held hregular.sound hact
  have hrequest := fun o sink => Gesture.request_act (g := g) (w := s.dispatcher.world) o sink
  generalize g.act s.dispatcher.world = act at hdeal hrequest
  cases hdeal with
  | idle _ _ _ heq => exact h.same hbytes heq
  | stir hc halike heq =>
    exact h.set hbytes hc heq fun hc' =>
      h.keeps hbytes hc hc' (congrArg Settlement.claimed halike.settlement) halike.body halike.tally
  | work hc hbody hrun heq hworld => exact h.work hbytes hsolvent hc hbody hrun heq hworld
  | credit hc hclaimed heq => exact h.set hbytes hc heq fun _ => ⟨fun _ => rfl, fun hopen => by cases hopen⟩
  | conclude hc hbody hclaimed _ _ _ heq =>
    exact h.set hbytes hc heq fun _ => ⟨fun _ => (h _ _ hc).flushed hclaimed, fun _ o ho => by cases ho⟩
  | take hc heq | poll hc heq | forget hc heq =>
    exact h.set hbytes hc heq fun hc' => h.keeps hbytes hc hc' rfl rfl rfl
  | @reject o sink fault hchecked heq =>
    obtain ⟨r, rfl⟩ := hrequest o sink rfl
    exact h.concat hbytes heq rfl rfl rfl
  | @letIn o sink fanout hchecked hinside heq =>
    obtain ⟨r, rfl⟩ := hrequest o sink rfl
    exact h.concat hbytes heq rfl rfl rfl
  | shutdown _ heq | releaseValue _ heq | surround _ heq | regate _ heq => exact h.same hbytes heq

end Tallied

theorem tallied_start {files : FileSystem} {doors : List String} {settings : Settings} {processors : Nat}
    {admission : Admission} {checkpoints : Bool} {d : Dispatcher World Operation Product}
    (h : Dispatcher.start ⟨0, .empty, files, doors⟩ settings processors admission checkpoints = .ok d) :
    Tallied ⟨0, d⟩ := by
  unfold Dispatcher.start at h
  split at h
  · cases h
  · obtain rfl := Except.ok.inj h
    exact fun id c hc => by cases hc

end Scene
end BitmapWorks
