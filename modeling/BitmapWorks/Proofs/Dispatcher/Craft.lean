import BitmapWorks.Proofs.Dispatcher.Deals
import BitmapWorks.Proofs.Dispatcher.Items
import BitmapWorks.Proofs.Dispatcher.Poise
/-!
# Craft — how the body of a task comes about

A task starts with the body that its preparation left, and every call of its work that returns leaves another one
(`Wrought`).  The calls that have returned and those that are under way are among the calls of its story (`Crafted`), so
no call is made for an item that another has worked on (`Crafting.call`).
-/
namespace BitmapWorks

variable {W B V : Type} {bh : Behaviour W B V} {id : Nat} {b₀ : B}

/-- A body after calls for some items, the latest first, that started from another body. -/
inductive Wrought (bh : Behaviour W B V) (b₀ : B) : List Nat → B → Prop
  | refl : Wrought bh b₀ [] b₀
  | work {items b} (world : W) (item : Nat) : Wrought bh b₀ items b →
    Wrought bh b₀ (item :: items) (bh.work world b item).body

def Errand.inCall : Errand → Multiset Nat
  | single _ .calling => {0}
  | part _ (.calling item) => {item}
  | _ => 0

/-- How a task stands that started with a body: its items are those of the body, and the calls that made its body what
it is, together with those under way, are among the calls of its story. -/
structure Crafted (bh : Behaviour W B V) (b₀ : B) (c : Cell B V) (s : Strand B V) : Prop where
  fits : ∀ f, c.fanout = some f → bh.items b₀ = some f.cursor.length
  spread : ∀ f, c.fanout = some f → ∃ partitions, Spread f.cursor.length partitions c s f
  body : ∀ b, c.body = some b → ∃ items, Wrought bh b₀ items b ∧
    ↑items + (s.errands.map Errand.inCall).sum ≤ (↑(s.story.filterMap Event.item?) : Multiset Nat)

/-! ## Steps -/

/-- **What a turn does to the calls under way**: it starts a call, or a call returns with another body, or neither. -/
theorem Turn.calls {n : Note} {c c' : Cell B V} {e : Errand} {next : Multiset Errand} {posted : Nat}
    {events : List (Event V)} (h : Turn bh id n c e c' next posted events) :
    (∃ item, events = [.called id item] ∧ e.inCall = 0 ∧ (next.map Errand.inCall).sum = {item} ∧ c' = c) ∨
    (∃ world item b, c.body = some b ∧ c'.body = some (bh.work world b item).body ∧ events = [] ∧ e.inCall = {item} ∧
      (next.map Errand.inCall).sum = 0) ∨
    (events = [] ∧ c'.body = c.body ∧ (c.body = none ∨ (next.map Errand.inCall).sum = e.inCall)) := by
  cases h with
  | call hbody => exact .inl ⟨0, rfl, rfl, by simp [Errand.inCall], rfl⟩
  | @partCall _ item => exact .inl ⟨item, rfl, rfl, by simp [Errand.inCall], rfl⟩
  | «return» world hbody => exact .inr (.inl ⟨world, 0, _, hbody, rfl, rfl, rfl, by simp [Errand.inCall]⟩)
  | partReturn world hbody => exact .inr (.inl ⟨world, _, _, hbody, rfl, rfl, rfl, by simp [Errand.inCall]⟩)
  | bodyless hbody | partBodyless hbody => exact .inr (.inr ⟨rfl, rfl, .inl hbody⟩)
  | _ => exact .inr (.inr ⟨rfl, rfl, .inr (by simp [Errand.inCall])⟩)

theorem Crafted.body_turn {n : Note} {c c' : Cell B V} {e : Errand} {next : Multiset Errand} {posted p : Nat}
    {events st : List (Event V)} {cs : List Chore} {es : Multiset Errand}
    (h : Crafted bh b₀ c ⟨some c, cs, p, e ::ₘ es, st⟩) (hturn : Turn bh id n c e c' next posted events) {b' : B}
    (hb' : c'.body = some b') : ∃ items, Wrought bh b₀ items b' ∧
      ↑items + ((next + es).map Errand.inCall).sum ≤ (↑((events ++ st).filterMap Event.item?) : Multiset Nat) := by
  rw [Multiset.map_add, Multiset.sum_add]
  rcases hturn.calls with ⟨item, rfl, hbefore, hafter, rfl⟩ | ⟨world, item, b, hbody, hbody', rfl, hbefore, hafter⟩ |
    ⟨rfl, hbody, hnone | hcalls⟩
  · obtain ⟨items, hwrought, hle⟩ := h.body b' hb'
    rw [Multiset.map_cons, Multiset.sum_cons, hbefore, zero_add] at hle
    refine ⟨items, hwrought, ?_⟩
    rw [hafter, Multiset.singleton_add, Multiset.add_cons]
    exact Multiset.cons_le_cons item hle
  · obtain rfl := Option.some.inj (hbody'.symm.trans hb')
    obtain ⟨items, hwrought, hle⟩ := h.body b hbody
    rw [Multiset.map_cons, Multiset.sum_cons, hbefore] at hle
    refine ⟨item :: items, .work world item hwrought, ?_⟩
    rw [hafter, zero_add, ← Multiset.cons_coe, Multiset.cons_add]
    rwa [Multiset.singleton_add, Multiset.add_cons] at hle
  · cases hnone.symm.trans (hbody.symm.trans hb')
  · obtain ⟨items, hwrought, hle⟩ := h.body b' (hbody.symm.trans hb')
    rw [Multiset.map_cons, Multiset.sum_cons, ← hcalls] at hle
    exact ⟨items, hwrought, hle⟩

theorem Crafted.body_congr {c c' : Cell B V} {s s' : Strand B V} (h : Crafted bh b₀ c s)
    (hbody : ∀ b, c'.body = some b → c.body = some b)
    (herrands : (s'.errands.map Errand.inCall).sum = (s.errands.map Errand.inCall).sum)
    (hcalls : s'.story.filterMap Event.item? = s.story.filterMap Event.item?) {b' : B} (hb' : c'.body = some b') :
    ∃ items, Wrought bh b₀ items b' ∧
      ↑items + (s'.errands.map Errand.inCall).sum ≤ (↑(s'.story.filterMap Event.item?) : Multiset Nat) := by
  rw [herrands, hcalls]
  exact h.body b' (hbody b' hb')

theorem Strand.Step.crafted_body {n : Note} {s s' : Strand B V} (h : Strand.Step bh id n s s') {c c' : Cell B V}
    (hc : s.cell = some c) (hc' : s'.cell = some c') (hcrafted : Crafted bh b₀ c s) {b' : B} (hb' : c'.body = some b') :
    ∃ items, Wrought bh b₀ items b' ∧
      ↑items + (s'.errands.map Errand.inCall).sum ≤ (↑(s'.story.filterMap Event.item?) : Multiset Nat) := by
  cases h with
  | reject | letIn | spread => cases hc
  | turn es hturn =>
    obtain rfl := Option.some.inj hc
    obtain rfl := Option.some.inj hc'
    exact hcrafted.body_turn hturn hb'
  | receive =>
    obtain rfl := Option.some.inj (hc.symm.trans hc')
    exact hcrafted.body_congr (fun _ hb => hb) rfl rfl hb'
  | submit | submitPart =>
    obtain rfl := Option.some.inj hc
    obtain rfl := Option.some.inj hc'
    refine hcrafted.body_congr (fun _ hb => hb) ?_ ?_ hb'
    · simp [Errand.inCall]
    · rfl
  | claim =>
    obtain rfl := Option.some.inj hc
    obtain rfl := Option.some.inj hc'
    exact hcrafted.body_congr (fun _ hb => hb) rfl rfl hb'
  | conclude | bodyless =>
    obtain rfl := Option.some.inj hc'
    cases hb'
  | _ =>
    obtain rfl := Option.some.inj hc
    obtain rfl := Option.some.inj hc'
    exact hcrafted.body_congr (fun _ hb => hb) rfl rfl hb'

theorem Strand.Step.crafted {n : Note} {s s' : Strand B V} (h : Strand.Step bh id n s s') (hs : s.Sound) {c : Cell B V}
    (hc : s.cell = some c) (hcrafted : Crafted bh b₀ c s) : ∃ c', s'.cell = some c' ∧ Crafted bh b₀ c' s' := by
  cases hfanout : c.fanout with
  | none =>
    obtain ⟨c', hc'⟩ := h.cell_ne_none hc
    have hnone : c'.fanout = none := (h.toCome_le hc hc').2.2 hfanout
    refine ⟨c', hc', fun f hf => ?_, fun f hf => ?_, fun b' hb' => h.crafted_body hc hc' hcrafted hb'⟩
    all_goals
      rw [hnone] at hf
      cases hf
  | some f =>
    obtain ⟨partitions, hspread⟩ := hcrafted.spread f hfanout
    obtain ⟨c', f', hc', hspread'⟩ := h.spread_items hs hc hspread
    have hlength : ∀ g, c'.fanout = some g → g.cursor.length = f.cursor.length := fun g hg => by
      obtain rfl := Option.some.inj (hspread'.fanout.symm.trans hg)
      exact hspread'.length
    refine ⟨c', hc', fun g hg => ?_, fun g hg => ?_, fun b' hb' => h.crafted_body hc hc' hcrafted hb'⟩
    · rw [hlength g hg]
      exact hcrafted.fits f hfanout
    · obtain rfl := Option.some.inj (hspread'.fanout.symm.trans hg)
      rw [hlength _ hg]
      exact ⟨partitions, hspread'⟩

theorem Strand.Step.crafted_start {n : Note} {s s' : Strand B V} (h : Strand.Step bh id n s s') (hrooted : s.Rooted)
    (hnone : s.cell = none) {c : Cell B V} (hc : s'.cell = some c) : ∃ b₀, c.body = some b₀ ∧ Crafted bh b₀ c s' := by
  have hbody : ∀ {b b' : B}, some b = some b' → ∃ items, Wrought bh b items b' ∧
      ↑items + ((0 : Multiset Errand).map Errand.inCall).sum ≤
        (↑(([.prepared id] : List (Event V)).filterMap Event.item?) : Multiset Nat) := fun heq => by
    obtain rfl := Option.some.inj heq
    refine ⟨[], .refl, ?_⟩
    rw [Multiset.map_zero, Multiset.sum_zero, add_zero]
    exact Multiset.zero_le _
  have hstart := h
  cases h with
  | reject b | letIn b =>
    obtain ⟨rfl, rfl, rfl, rfl⟩ := hrooted rfl
    obtain rfl := Option.some.inj hc
    exact ⟨b, rfl, nofun, nofun, fun b' hb' => hbody hb'⟩
  | spread b sink n count hsink hitems hcount =>
    obtain ⟨rfl, rfl, rfl, rfl⟩ := hrooted rfl
    obtain rfl := Option.some.inj hc
    obtain ⟨c, hc, hspread, -⟩ := hstart.spread_start hrooted rfl rfl
    obtain rfl := Option.some.inj hc
    refine ⟨b, rfl, fun f hf => ?_, fun f hf => ?_, fun b' hb' => hbody hb'⟩
    all_goals obtain rfl := Option.some.inj hf
    · exact hitems
    · exact ⟨count, hspread⟩
  | receive => cases hnone.symm.trans hc
  | _ => cases hnone

/-! ## Calls -/

theorem Told.items {c : Cell B V} {ending : List (Event V)} (h : Told id c ending) :
    ending.filterMap Event.item? = [] := by
  rw [List.filterMap_eq_nil_iff]
  intro e he
  cases e with
  | called id' item =>
    cases h with
    | working => cases he
    | flushed => simp at he
    | closed tally hdone hending hevent =>
      rcases hevent with rfl | rfl <;> cases hending <;> simp at he
  | _ => rfl

theorem Tale.items {c : Cell B V} {s : Strand B V} {calls : List Nat} {ending : List (Event V)}
    (h : Tale id c s calls ending) : s.story.filterMap Event.item? = calls := by
  have hcalls : (calls.map (Event.called (V := V) id)).filterMap Event.item? = calls := by
    rw [List.filterMap_map]
    exact List.filterMap_some
  rw [h.story, List.filterMap_append, List.filterMap_append, h.told.items, hcalls]
  exact List.append_nil calls

namespace Crafted

variable {c : Cell B V} {s : Strand B V} {calls : List Nat} {ending : List (Event V)}

/-- **The calls of a story are for different items.** -/
theorem nodup (h : Crafted bh b₀ c s) (htale : Tale id c s calls ending) :
    (s.story.filterMap Event.item?).Nodup := by
  cases hfanout : c.fanout with
  | some f =>
    obtain ⟨partitions, hspread⟩ := h.spread f hfanout
    -- the calls are among the numbers that were drawn from the cursor, each of them once
    have hle : (↑(s.story.filterMap Event.item?) : Multiset Nat) ≤ s.items := Multiset.le_add_right _ _
    rw [hspread.drawn] at hle
    exact Multiset.coe_nodup.1 (Multiset.nodup_of_le hle (Multiset.nodup_range _))
  | none =>
    have hone := htale.once hfanout
    rw [htale.items]
    match calls, hone with
    | [], _ => exact List.nodup_nil
    | [item], _ => exact List.nodup_singleton item
    | _ :: _ :: _, hone => simp only [List.length_cons] at hone; omega

/-- **Whoever is in a call is the first to work on its item**: work that is one call finds the body as it started, and a
partition has one of the items of that body. -/
theorem call (h : Crafted bh b₀ c s) (htale : Tale id c s calls ending) (hkinds : Kinds c s) {e : Errand}
    (he : e ∈ s.errands) {item : Nat} (hitem : e.inCall = {item}) {b : B} (hb : c.body = some b) :
    ∃ items, Wrought bh b₀ items b ∧ item ∉ items ∧
      (items = [] ∧ item = 0 ∨ ∃ n, bh.items b₀ = some n ∧ item < n) := by
  obtain ⟨items, hwrought, hle⟩ := h.body b hb
  obtain ⟨es, hes⟩ := Multiset.exists_cons_of_mem he
  -- the story has this call and those that the body has had, and no two of them alike
  have hcalls : (item ::ₘ ↑items : Multiset Nat) ≤ ↑(s.story.filterMap Event.item?) := by
    refine le_trans ?_ hle
    rw [hes, Multiset.map_cons, Multiset.sum_cons, hitem, Multiset.singleton_add, Multiset.add_cons]
    exact Multiset.cons_le_cons item (Multiset.le_add_right _ _)
  have hnodup : (item ::ₘ ↑items : Multiset Nat).Nodup :=
    Multiset.nodup_of_le hcalls (Multiset.coe_nodup.2 (h.nodup htale))
  refine ⟨items, hwrought, fun hmem => (Multiset.nodup_cons.1 hnodup).1 (Multiset.mem_coe.2 hmem), ?_⟩
  cases hfanout : c.fanout with
  | none =>
    have hcard := Multiset.card_le_card hcalls
    have hone := htale.once hfanout
    rw [htale.items, Multiset.card_cons, Multiset.coe_card, Multiset.coe_card] at hcard
    refine .inl ⟨List.eq_nil_of_length_eq_zero (by omega), ?_⟩
    cases e with
    | single id' phase =>
      cases phase with
      | calling => exact (Multiset.singleton_inj.1 hitem).symm
      | _ => exact absurd hitem.symm (Multiset.singleton_ne_zero item)
    | part id' phase =>
      have hparts := hkinds.single hfanout
      simp [Strand.weigh, hes, Errand.isPart] at hparts
  | some f =>
    obtain ⟨partitions, hspread⟩ := h.spread f hfanout
    refine .inr ⟨f.cursor.length, h.fits f hfanout, ?_⟩
    have hpassed : item ∈ s.items := Multiset.mem_of_le (Multiset.le_add_right _ _)
      (Multiset.mem_of_le hcalls (Multiset.mem_cons_self item _))
    rw [hspread.drawn, Multiset.mem_range] at hpassed
    omega

end Crafted

/-- Whether a strand is one that a task can have which started with a body of some kind. -/
structure Strand.Credible (bh : Behaviour W B V) (p : B → Prop) (id : Nat) (c : Cell B V) (s : Strand B V) : Prop where
  cell : s.cell = some c
  sound : s.Sound
  told : ∃ calls ending, Tale id c s calls ending
  crafted : ∃ b₀, p b₀ ∧ Crafted bh b₀ c s

namespace Strand.Credible

variable {c : Cell B V} {s s' : Strand B V} {p : B → Prop}

theorem step {n : Note} (h : s.Credible bh p id c) (hstep : Strand.Step bh id n s s') :
    ∃ c', s'.Credible bh p id c' := by
  obtain ⟨b₀, hb₀, hcrafted⟩ := h.crafted
  obtain ⟨c', hc', hcrafted'⟩ := hstep.crafted h.sound h.cell hcrafted
  have htold : ∀ c, s.cell = some c → ∃ calls ending, Tale id c s calls ending := fun c₀ hc₀ => by
    obtain rfl := Option.some.inj (h.cell.symm.trans hc₀)
    exact h.told
  exact ⟨c', hc', hstep.sound h.sound, hstep.tale h.sound htold c' hc', b₀, hb₀, hcrafted'⟩

/-- **Whoever is called is running, and nobody has worked on the item before.** -/
theorem call (h : s.Credible bh p id c) {e : Errand} (he : e ∈ s.errands) {item : Nat} (hitem : e.inCall = {item}) {b : B}
    (hbody : c.body = some b) : c.stage = .running ∧ ∃ b₀, p b₀ ∧ ∃ items, Wrought bh b₀ items b ∧ item ∉ items ∧
      (items = [] ∧ item = 0 ∨ ∃ n, bh.items b₀ = some n ∧ item < n) := by
  have hactive : e.active = 1 := by
    cases e with
    | single id' phase =>
      cases phase with
      | calling => rfl
      | _ => exact absurd hitem.symm (Multiset.singleton_ne_zero item)
    | part id' phase =>
      cases phase with
      | calling => rfl
      | _ => exact absurd hitem.symm (Multiset.singleton_ne_zero item)
  obtain ⟨calls, ending, htale⟩ := h.told
  obtain ⟨b₀, hb₀, hcrafted⟩ := h.crafted
  obtain ⟨items, hcall⟩ := hcrafted.call htale (h.sound.kinds c h.cell) he hitem hbody
  refine ⟨h.sound.running_of_active h.cell fun hzero => ?_, b₀, hb₀, items, hcall⟩
  rw [Strand.active_eq_zero hzero he] at hactive
  cases hactive

end Strand.Credible

/-! ## Runs -/

namespace Dispatcher

variable {d d' : Dispatcher W B V} {c : Cell B V} {a : Act W B V} {p : B → Prop}

structure Making (bh : Behaviour W B V) (p : B → Prop) (d : Dispatcher W B V) : Prop where
  regular : d.Regular bh
  crafted : ∀ id c, d.cells[id]? = some c → ∃ b₀, p b₀ ∧ Crafted bh b₀ c (d.strand id)

theorem making_start {world : W} {s : Settings} {processors : Nat} {admission : Admission} {checkpoints : Bool}
    (h : start world s processors admission checkpoints = .ok d) : d.Making bh p := by
  obtain ⟨-, -, -, hblank⟩ := start_spec h
  have hnone : ∀ id, d.cells[id]? = none := fun id => congrArg Strand.cell (hblank id)
  refine ⟨regular_start h, fun id c hc => ?_⟩
  rw [hnone] at hc
  cases hc

theorem Deal.newcomer (h : Deal bh d d' a) (hnone : d.cells[id]? = none) (hc : d'.cells[id]? = some c) :
    ∃ b sink, a = .spawn b sink ∧ c.body = some (bh.prepare d.world b).2.2 := by
  have hlength := List.getElem?_eq_none_iff.1 hnone
  have hset : ∀ {id' : Nat} {c' : Cell B V}, d'.cells = d.cells.set id' c' → False := fun hcells => by
    rw [hcells, List.getElem?_eq_none (by rwa [List.length_set])] at hc
    cases hc
  have hsame : d'.cells = d.cells → False := fun hcells => by
    rw [hcells, hnone] at hc
    cases hc
  have hadd : ∀ {c' : Cell B V}, d'.cells = d.cells ++ [c'] → c = c' := fun hcells => by
    rw [hcells, List.getElem?_append_right hlength, List.getElem?_singleton] at hc
    split at hc
    · exact (Option.some.inj hc).symm
    · cases hc
  cases h with
  | idle _ _ _ hcells => exact (hsame hcells).elim
  | shutdown _ hcells | releaseValue _ hcells | surround _ hcells | regate _ hcells => exact (hsame hcells).elim
  | stir _ _ hcells => exact (hset hcells).elim
  | work _ _ _ hcells | credit _ _ hcells => exact (hset hcells).elim
  | conclude _ _ _ _ _ _ hcells => exact (hset hcells).elim
  | take _ hcells | poll _ hcells | forget _ hcells => exact (hset hcells).elim
  | reject _ hcells | letIn _ _ hcells =>
    obtain rfl := hadd hcells
    exact ⟨_, _, rfl, rfl⟩

theorem Making.act (hbh : bh.Returns) (h : d.Making bh p) (ha : a.returns = true)
    (hprepare : ∀ b sink, a = .spawn b sink → p (bh.prepare d.world b).2.2) (hact : d.act? bh a = some d') :
    d'.Making bh p := by
  obtain ⟨-, -, hleads⟩ := weave hbh h.regular.held ha hact
  refine ⟨h.regular.act hbh ha hact, fun id c' hc' => ?_⟩
  cases hc : d.cells[id]? with
  | some c =>
    obtain ⟨b₀, hb₀, hcrafted⟩ := h.crafted id c hc
    rcases hleads id with ⟨-, hsame⟩ | hstep
    · obtain rfl : c = c' := Option.some.inj (hc.symm.trans ((congrArg Strand.cell hsame).symm.trans hc'))
      exact ⟨b₀, hb₀, hsame ▸ hcrafted⟩
    · obtain ⟨c'', hc'', hcrafted'⟩ := hstep.crafted (h.regular.sound id) hc hcrafted
      obtain rfl := Option.some.inj (hc''.symm.trans hc')
      exact ⟨b₀, hb₀, hcrafted'⟩
  | none =>
    rcases hleads id with ⟨-, hsame⟩ | hstep
    · cases hc.symm.trans ((congrArg Strand.cell hsame).symm.trans hc')
    · obtain ⟨b, sink, rfl, hbody⟩ := (deal_of_act hbh h.regular.held h.regular.sound hact).newcomer hc hc'
      obtain ⟨b₀, hbody', hcrafted⟩ := hstep.crafted_start (h.regular.held.rooted id) hc hc'
      obtain rfl := Option.some.inj (hbody.symm.trans hbody')
      exact ⟨_, hprepare b sink rfl, hcrafted⟩

theorem Making.credible (h : d.Making bh p) (hc : d.cells[id]? = some c) : (d.strand id).Credible bh p id c :=
  ⟨hc, h.regular.sound id, h.regular.told id c hc, h.crafted id c hc⟩

theorem mem_errands_of_call {i item : Nat} (hrun : d.crew.running? i = some (.single id .calling) ∧ item = 0 ∨
    d.crew.running? i = some (.part id (.calling item))) : ∃ e ∈ (d.strand id).errands, e.inCall = {item} := by
  obtain ⟨e, he, hid, hitem⟩ : ∃ e, d.crew.running? i = some e ∧ e.id = id ∧ e.inCall = {item} := by
    rcases hrun with ⟨hrun, rfl⟩ | hrun
    · exact ⟨_, hrun, rfl, rfl⟩
    · exact ⟨_, hrun, rfl, rfl⟩
  refine ⟨e, ?_, hitem⟩
  show e ∈ d.crew.hand.filter (·.id = id)
  rw [Multiset.mem_filter, (Crew.hand_of_running? he false).1]
  exact ⟨Multiset.mem_cons_self _ _, hid⟩

/-- **Whoever is called is running, and nobody has worked on the item before.** -/
theorem Making.call (h : d.Making bh p) (hc : d.cells[id]? = some c) {b : B} (hbody : c.body = some b) {i item : Nat}
    (hrun : d.crew.running? i = some (.single id .calling) ∧ item = 0 ∨
      d.crew.running? i = some (.part id (.calling item))) :
    c.stage = .running ∧ ∃ b₀, p b₀ ∧ ∃ items, Wrought bh b₀ items b ∧ item ∉ items ∧
      (items = [] ∧ item = 0 ∨ ∃ n, bh.items b₀ = some n ∧ item < n) := by
  obtain ⟨e, he, hitem⟩ := mem_errands_of_call hrun
  exact (h.credible hc).call he hitem hbody

end Dispatcher
end BitmapWorks
