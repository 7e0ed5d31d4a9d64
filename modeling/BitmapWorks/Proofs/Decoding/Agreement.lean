import BitmapWorks.Proofs.Decoding.RoundTrip
/-!
# Agreement — the portable layout in sequence and in place

Both ways of reading the portable layout accept the same bytes (`decode_frozenPortable_ok`), because the check in front
of the view is the reader in sequence.  That reader never looks at the stored starts and the view looks at nothing else,
so accepted bytes need not show the same values in place: they do exactly when every stored start leads to a body inside
the bytes that holds what the body in sequence holds (`frozenPortable_agrees_iff`).  Where no starts are stored, or where
they are the ones that an encoder writes, this is so; `swapped` has two starts exchanged and is accepted all the same.
-/
namespace BitmapWorks
namespace Portable

theorem length_headsOnto : ∀ (ws : List UInt16) (flags : Nat), (headsOnto ws flags []).length = ws.length / 2
  | [], _ => rfl
  | [_], _ => by simp [headsOnto]
  | key :: less :: rest, flags => by
    rw [headsOnto_cons, List.length_cons, length_headsOnto rest, List.length_cons, List.length_cons]
    omega

theorem length_starts {bs : Bytes} {header : Header} (h : readHeader? bs = some header) {starts : List Nat}
    (hs : header.starts = some starts) : starts.length = header.heads.length := by
  unfold readHeader? at h
  obtain ⟨⟨n, flags, rest⟩, -, hrest⟩ := Option.bind_eq_some_iff.1 h
  obtain ⟨⟨table, left⟩, htable, hleft⟩ := Option.bind_eq_some_iff.1 hrest
  obtain ⟨htable, -⟩ := Bytes.split?_eq_some htable
  dsimp only at htable hleft
  split at hleft
  · obtain ⟨⟨words, bodies⟩, hwords, hheader⟩ := Option.bind_eq_some_iff.1 hleft
    obtain ⟨hwords, -⟩ := Bytes.split?_eq_some hwords
    cases hheader
    cases hs
    rw [List.length_map, Bytes.length_words32, length_headsOnto, Bytes.length_words16, hwords, htable]
    omega
  · cases hleft
    cases hs

/-- Whether a stored start leads to a body inside the bytes that holds the numbers of a container. -/
def LeadsTo (bs : Bytes) (p : (Head × Nat) × (UInt16 × Container)) : Prop :=
  inside bs p.1 ∧ ∀ low, (found bs p.1).contains low = p.2.2.contains low

/-- **What a view shows is what its starts lead to.** -/
theorem view?_agrees_iff {bs : Bytes} {b : Bitmap} {header : Header} (h : decode? bs = some b)
    (hh : readHeader? bs = some header) :
    ((∀ p ∈ header.heads.zip (places bs header), inside bs p) ∧
        ∀ v, ((view? bs).getD .empty).contains v = b.contains v) ↔
      ∀ starts, header.starts = some starts → ∀ p ∈ (header.heads.zip starts).zip b.containers, LeadsTo bs p := by
  obtain ⟨hvalid, header', hh', hread⟩ := decode?_eq_some h
  obtain rfl : header' = header := by rw [hh, Option.some.injEq] at hh'; exact hh'.symm
  have hkeys := keys_of_readBodies? hread
  have hlen : b.containers.length = header'.heads.length := by
    have := congrArg List.length hkeys
    rwa [List.length_map, List.length_map] at this
  cases hs : header'.starts with
  | none =>
    -- the view looks for the bodies in sequence and finds there what was read in sequence
    have hplaces : places bs header' = offsets (bodiesAt bs header') b.containers := by
      unfold places
      rw [hs, Option.getD_none, bodiesFrom_of_readBodies? hread]
    obtain ⟨hview, hin⟩ := view?_of_decode? h hh hplaces
    rw [hview]
    exact ⟨fun _ starts hstarts => (by cases hstarts), fun _ => ⟨hin, fun v => rfl⟩⟩
  | some starts =>
    have hstarts := length_starts hh hs
    have hplaces : places bs header' = starts := by
      unfold places
      rw [hs, Option.getD_some]
    have hfst : ((header'.heads.zip starts).zip b.containers).map Prod.fst = header'.heads.zip starts :=
      List.map_fst_zip (by rw [List.length_zip]; omega)
    have hkeys' : ((header'.heads.zip starts).map fun p => (p.1.key, found bs p)).map Prod.fst
        = b.containers.map Prod.fst := by
      have hheads : (header'.heads.zip starts).map Prod.fst = header'.heads := List.map_fst_zip (by omega)
      rw [hkeys, List.map_map]
      conv => rhs; rw [← hheads, List.map_map]
      rfl
    rw [view?_eq hh, Option.getD_some, hplaces, Bitmap.contains_congr_iff hkeys' (Bitmap.keys_pairwise hvalid),
      List.zip_map_left]
    constructor
    · rintro ⟨hin, hagree⟩ starts' heq p hp
      obtain rfl : starts = starts' := Option.some.inj heq
      exact ⟨hin p.1 (hfst ▸ List.mem_map_of_mem hp), hagree _ (List.mem_map_of_mem hp)⟩
    · intro hall
      refine ⟨fun p hp => ?_, fun q hq => ?_⟩
      · rw [← hfst] at hp
        obtain ⟨q, hq, rfl⟩ := List.mem_map.1 hp
        exact (hall starts rfl q hq).1
      · obtain ⟨p, hp, rfl⟩ := List.mem_map.1 hq
        exact (hall starts rfl p hp).2

end Portable

namespace Decoding

theorem decode_portable_ok {bs : Bytes} (h : bs ≠ []) {base : Nat} {c : Content} :
    decode base bs .portable = .ok c ↔ ∃ b, Portable.decode? bs = some b ∧ c = .owned b := by
  rw [(decode_of_not_isFrozen h (f := .portable) rfl base).1]
  unfold unfrozen portable
  cases Portable.decode? bs with
  | none => exact ⟨fun hc => (by cases hc), fun ⟨b, hb, _⟩ => (by cases hb)⟩
  | some b =>
    constructor
    · intro hc
      cases hc
      exact ⟨b, rfl, rfl⟩
    · rintro ⟨b', hb, rfl⟩
      cases hb
      rfl

/-- A frozen copy in the portable layout is made of the bytes that can be read in sequence, if there is memory for
them, and shows what they show in place. -/
theorem decode_frozenPortable_ok {bs : Bytes} (h : bs ≠ []) (base : Nat) :
    ((∃ c, decode base bs .frozenPortable = .ok c) ↔
      (Portable.decode? bs).isSome = true ∧ bs.length + 31 < Window.memoryLimit) ∧
    ∀ c, decode base bs .frozenPortable = .ok c → c.bitmap = (Portable.view? bs).getD .empty := by
  rw [(decode_of_isFrozen h (f := .frozenPortable) rfl base).1]
  by_cases hroom : bs.length + 31 < Window.memoryLimit
  · obtain ⟨w, -, hcopy⟩ := Frozen.copy_eq base .frozenPortable hroom
    rw [hcopy]
    unfold Frozen.check
    cases hdecode : (Portable.decode? bs).isSome with
    | true => exact ⟨⟨fun _ => ⟨rfl, hroom⟩, fun _ => ⟨_, rfl⟩⟩, fun c hc => (by cases hc; rfl)⟩
    | false => exact ⟨⟨fun ⟨c, hc⟩ => (by cases hc), fun hc => (by cases hc.1)⟩, fun c hc => (by cases hc)⟩
  · obtain ⟨n, hcopy⟩ := Frozen.copy_error base .frozenPortable (Nat.not_lt.1 hroom)
    rw [hcopy]
    exact ⟨⟨fun ⟨c, hc⟩ => (by cases hc), fun hc => absurd hc.2 hroom⟩, fun c hc => (by cases hc)⟩

/-- **When a view in place agrees with reading in sequence.**  Both accept the same bytes, as far as there is memory for
the copy; on bytes that both accept, the view stays inside the bytes and holds the same values exactly when no starts
are stored or every stored start leads to a body inside the bytes with the same numbers. -/
theorem frozenPortable_agrees_iff {bs : Bytes} (h : bs ≠ []) (base portableBase : Nat) :
    ((∃ c, decode base bs .frozenPortable = .ok c) ↔
      (∃ d, decode portableBase bs .portable = .ok d) ∧ bs.length + 31 < Window.memoryLimit) ∧
    ∀ c d, decode base bs .frozenPortable = .ok c → decode portableBase bs .portable = .ok d →
      ∃ header, Portable.readHeader? bs = some header ∧
        (((∀ p ∈ header.heads.zip (Portable.places bs header), Portable.inside bs p) ∧
            ∀ v, c.bitmap.contains v = d.bitmap.contains v) ↔
          ∀ starts, header.starts = some starts →
            ∀ p ∈ (header.heads.zip starts).zip d.bitmap.containers, Portable.LeadsTo bs p) := by
  obtain ⟨hok, hshows⟩ := decode_frozenPortable_ok h base
  constructor
  · have hportable : (∃ d, decode portableBase bs .portable = .ok d) ↔ (Portable.decode? bs).isSome = true := by
      rw [Option.isSome_iff_exists]
      constructor
      · rintro ⟨d, hd⟩
        obtain ⟨b, hb, -⟩ := (decode_portable_ok h).1 hd
        exact ⟨b, hb⟩
      · rintro ⟨b, hb⟩
        exact ⟨.owned b, (decode_portable_ok h).2 ⟨b, hb, rfl⟩⟩
    rw [hok, hportable]
  · intro c d hc hd
    obtain ⟨b, hb, rfl⟩ := (decode_portable_ok h).1 hd
    obtain ⟨-, header, hheader, -⟩ := Portable.decode?_eq_some hb
    refine ⟨header, hheader, ?_⟩
    rw [hshows c hc]
    exact Portable.view?_agrees_iff hb hheader

/-- Two arrays of one number each, with the two stored starts exchanged. -/
def swapped : Bytes :=
  [58, 48, 0, 0, 2, 0, 0, 0, 0, 0, 0, 0, 1, 0, 0, 0, 26, 0, 0, 0, 24, 0, 0, 0, 1, 0, 2, 0]

theorem frozenPortable_agrees_iff_swapped : ∃ header, Portable.readHeader? swapped = some header ∧
    ¬ ∀ starts, header.starts = some starts →
      ∀ p ∈ (header.heads.zip starts).zip (Bitmap.ofList [1, 65538]).containers, Portable.LeadsTo swapped p := by
  have hne : swapped ≠ [] := by decide
  obtain ⟨-, hagree⟩ := frozenPortable_agrees_iff hne 0 0
  obtain ⟨header, hheader, hiff⟩ := hagree _ (.owned (.ofList [1, 65538])) rfl rfl
  refine ⟨header, hheader, fun hall => ?_⟩
  exact absurd ((hiff.2 hall).2 1) (by decide +kernel)

/-- **Accepted both ways, with other values in place.** -/
theorem swapped_disagrees : ∃ c, decode 0 swapped .frozenPortable = .ok c ∧
    decode 0 swapped .portable = .ok (.owned (.ofList [1, 65538])) ∧ c.bitmap.values = [2, 65537] ∧
    c.bitmap.contains 1 = false ∧ (Bitmap.ofList [1, 65538]).contains 1 = true := by
  refine ⟨_, rfl, rfl, ?_⟩
  decide +kernel

end Decoding
end BitmapWorks
