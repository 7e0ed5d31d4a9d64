import BitmapWorks.Proofs.Portable.Place
/-!
# Cut — the interchange layout, cut short

The reader in sequence looks at no byte behind the last body: what it accepts it accepts with any bytes behind it, as
the same bitmap (`decode?_append_of_some`).  It leaves out none before that either, for the bodies it has read take all
their bytes (`sum_bodySize_le`).  An encoding that has lost bytes at its end is therefore refused
(`decode?_eq_none_of_encode_eq_append`), wherever the cut falls.
-/
namespace BitmapWorks

namespace Portable

/-! ## More bytes behind -/

theorem readCookie?_append_of_some {bs : Bytes} {n : Nat} {flags : Option Bytes} {rest : Bytes}
    (h : readCookie? bs = some (n, flags, rest)) (more : Bytes) :
    readCookie? (bs ++ more) = some (n, flags, rest ++ more) := by
  rw [readCookie?] at h ⊢
  obtain ⟨⟨first, tail⟩, hfirst, htail⟩ := Option.bind_eq_some_iff.1 h
  rw [Bytes.split?_append_of_some hfirst, Option.bind_eq_bind, Option.bind_some]
  dsimp only at htail ⊢
  split at htail
  · rename_i hruns
    obtain ⟨⟨bits, left⟩, hbits, hn⟩ := Option.bind_eq_some_iff.1 htail
    cases hn
    rw [if_pos hruns, Bytes.split?_append_of_some hbits]
    rfl
  · rename_i hruns
    rw [if_neg hruns]
    split at htail
    · rename_i hplain
      obtain ⟨⟨count, left⟩, hcount, hn⟩ := Option.bind_eq_some_iff.1 htail
      dsimp only at hn
      split at hn
      · rename_i hfew
        cases hn
        rw [if_pos hplain, Bytes.split?_append_of_some hcount, Option.bind_some]
        dsimp only
        rw [if_pos hfew]
        rfl
      · cases hn
    · cases htail

theorem readHeader?_append_of_some {bs : Bytes} {header : Header} (h : readHeader? bs = some header) (more : Bytes) :
    readHeader? (bs ++ more) = some { header with bodies := header.bodies ++ more } := by
  rw [readHeader?] at h ⊢
  obtain ⟨⟨n, flags, rest⟩, hcookie, hrest⟩ := Option.bind_eq_some_iff.1 h
  obtain ⟨⟨table, left⟩, htable, hleft⟩ := Option.bind_eq_some_iff.1 hrest
  dsimp only at htable hleft
  rw [readCookie?_append_of_some hcookie, Option.bind_eq_bind, Option.bind_some]
  dsimp only
  rw [Bytes.split?_append_of_some htable, Option.bind_eq_bind, Option.bind_some]
  dsimp only
  split at hleft
  · rename_i hstores
    obtain ⟨⟨starts, bodies⟩, hstarts, hheader⟩ := Option.bind_eq_some_iff.1 hleft
    cases hheader
    rw [if_pos hstores, Bytes.split?_append_of_some hstarts]
    rfl
  · rename_i hstores
    cases hleft
    rw [if_neg hstores]
    rfl

theorem readBody?_append_of_some {hd : Head} {bs rest : Bytes} {c : Container} (h : readBody? hd bs = some (c, rest))
    (more : Bytes) : readBody? hd (bs ++ more) = some (c, rest ++ more) := by
  cases hr : hd.runs with
  | true =>
    rw [readBody?_runs hr] at h ⊢
    obtain ⟨⟨count, tail⟩, hcount, htail⟩ := Option.bind_eq_some_iff.1 h
    obtain ⟨⟨table, left⟩, htable, hc⟩ := Option.bind_eq_some_iff.1 htail
    cases hc
    rw [Bytes.split?_append_of_some hcount, Option.bind_some, Bytes.split?_append_of_some htable, Option.bind_some]
  | false =>
    by_cases hlimit : Container.arrayLimit < hd.count
    · rw [readBody?_bitset hr hlimit] at h ⊢
      obtain ⟨⟨table, left⟩, htable, hc⟩ := Option.bind_eq_some_iff.1 h
      cases hc
      rw [Bytes.split?_append_of_some htable, Option.bind_some]
    · rw [readBody?_array hr hlimit] at h ⊢
      obtain ⟨⟨table, left⟩, htable, hc⟩ := Option.bind_eq_some_iff.1 h
      cases hc
      rw [Bytes.split?_append_of_some htable, Option.bind_some]

theorem readBodies?_append_of_some : ∀ {hs : List Head} {bs : Bytes} {cs : List (UInt16 × Container)},
    readBodies? hs bs = some cs → ∀ more, readBodies? hs (bs ++ more) = some cs
  | [], _, _, h, _ => h
  | hd :: hs, bs, cs, h, more => by
    rw [readBodies?] at h ⊢
    obtain ⟨⟨c, rest⟩, hbody, hrest⟩ := Option.bind_eq_some_iff.1 h
    obtain ⟨cs', hbodies, hcs⟩ := Option.bind_eq_some_iff.1 hrest
    cases hcs
    rw [readBody?_append_of_some hbody, Option.bind_eq_bind, Option.bind_some]
    dsimp only
    rw [readBodies?_append_of_some hbodies]
    rfl

theorem decode?_append_of_some {bs : Bytes} {b : Bitmap} (h : decode? bs = some b) (more : Bytes) :
    decode? (bs ++ more) = some b := by
  obtain ⟨hvalid, header, hheader, hbodies⟩ := decode?_eq_some h
  rw [decode?, readHeader?_append_of_some hheader, Option.bind_eq_bind, Option.bind_some]
  dsimp only
  rw [readBodies?_append_of_some hbodies, Option.bind_eq_bind, Option.bind_some, if_pos hvalid]
  rfl

/-! ## Fewer bytes -/

/-- **Bodies that are read take all their bytes.** -/
theorem sum_bodySize_le : ∀ {hs : List Head} {bs : Bytes} {cs : List (UInt16 × Container)},
    readBodies? hs bs = some cs → (cs.map fun kc => kc.2.bodySize).sum ≤ bs.length
  | [], _, _, h => by
    cases h
    exact Nat.zero_le _
  | hd :: hs, bs, cs, h => by
    rw [readBodies?] at h
    obtain ⟨⟨c, rest⟩, hbody, hrest⟩ := Option.bind_eq_some_iff.1 h
    obtain ⟨cs', hbodies, hcs⟩ := Option.bind_eq_some_iff.1 hrest
    cases hcs
    obtain ⟨-, front, hsplit, hlen⟩ := bodyAt_of_readBody? hbody
    have ih := sum_bodySize_le hbodies
    rw [hsplit, List.length_append, List.map_cons, List.sum_cons, hlen]
    exact Nat.add_le_add_left ih _

/-- **An encoding that has lost its last bytes is refused**, wherever the cut falls. -/
theorem decode?_eq_none_of_encode_eq_append {b : Bitmap} (hb : b.valid = true) {front back : Bytes}
    (h : encode b = front ++ back) (hback : back ≠ []) : decode? front = none := by
  refine Option.eq_none_iff_forall_ne_some.2 fun d hd => ?_
  have hwhole := decode?_encode_append hb []
  rw [List.append_nil, h, decode?_append_of_some hd, Option.some.injEq] at hwhole
  subst hwhole
  obtain ⟨-, header, hheader, hbodies⟩ := decode?_eq_some hd
  -- the header of the front is that of the whole, so the bodies that were found in the front fill the whole
  have hbytes := readHeader?_encode_append hb []
  rw [List.append_nil, List.append_nil, h, readHeader?_append_of_some hheader, Option.some.injEq] at hbytes
  have hlen : (header.bodies ++ back).length = (d.containers.map fun kc => kc.2.bodySize).sum :=
    (congrArg (fun hd => hd.bodies.length) hbytes).trans (length_flatMap_body d.containers)
  have hsum := sum_bodySize_le hbodies
  have hpos := List.length_pos_iff.2 hback
  rw [List.length_append] at hlen
  omega

end Portable
end BitmapWorks
