import BitmapWorks.Proofs.Portable.Sequence
/-!
# Place — the interchange layout, read in place

A body that can be read from the front is the body that is found there in place (`bodyAt_of_readBody?`), so reading in
place at the right starts is reading in sequence (`map_found_offsets`).  `places` says where the view looks for each
body, and `view?_eq` that it looks nowhere else; what the view shows then hangs on the stored starts alone.
-/
namespace BitmapWorks
namespace Portable

/-! ## One body -/

theorem bodyAt_runs {h : Head} (hr : h.runs = true) (bs : Bytes) :
    bodyAt h bs = .runs (runsOnto (Bytes.words16
      (Bytes.takePadded (4 * Bytes.leNat (Bytes.takePadded 2 bs)) (bs.drop 2))) []) := by
  rw [bodyAt, if_pos hr]

theorem bodyAt_bitset {h : Head} (hr : h.runs = false) (hc : Container.arrayLimit < h.count) (bs : Bytes) :
    bodyAt h bs = .bitset h.count (Bytes.leNat (Bytes.takePadded Container.bitsetBytes bs)) := by
  rw [bodyAt, if_neg (by simp [hr]), if_pos hc]

theorem bodyAt_array {h : Head} (hr : h.runs = false) (hc : ¬ Container.arrayLimit < h.count) (bs : Bytes) :
    bodyAt h bs = .array (Bytes.words16 (Bytes.takePadded (2 * h.count) bs)).toArray := by
  rw [bodyAt, if_neg (by simp [hr]), if_neg hc]

theorem takePadded_append {n : Nat} {xs : Bytes} (h : xs.length = n) (ys : Bytes) : Bytes.takePadded n (xs ++ ys) = xs := by
  subst h
  rw [Bytes.takePadded_of_le (by simp), List.take_left]

@[simp] theorem length_runsOnto : ∀ ws : List UInt16, (runsOnto ws []).length = ws.length / 2
  | [] => rfl
  | [_] => by simp [runsOnto]
  | start :: extra :: rest => by
    rw [runsOnto_cons, List.length_cons, length_runsOnto rest]
    simp only [List.length_cons]
    omega

/-- **A body that can be read from the front is found there in place**, and what is left lies behind it. -/
theorem bodyAt_of_readBody? {h : Head} {bs rest : Bytes} {c : Container} (hread : readBody? h bs = some (c, rest)) :
    bodyAt h bs = c ∧ ∃ front : Bytes, bs = front ++ rest ∧ front.length = c.bodySize := by
  cases hr : h.runs with
  | true =>
    rw [readBody?_runs hr] at hread
    obtain ⟨⟨count, tail⟩, h1, hread'⟩ := Option.bind_eq_some_iff.1 hread
    obtain ⟨⟨table, left⟩, h2, hc⟩ := Option.bind_eq_some_iff.1 hread'
    obtain ⟨hlen1, hbs⟩ := Bytes.split?_eq_some h1
    obtain ⟨hlen2, htail⟩ := Bytes.split?_eq_some h2
    dsimp only at htail hlen2
    subst htail hbs
    cases hc
    refine ⟨?_, count ++ table, (List.append_assoc _ _ _).symm, ?_⟩
    · rw [bodyAt_runs hr, takePadded_append hlen1, List.drop_append_of_le_length (by omega),
        List.drop_eq_nil_of_le (by omega), List.nil_append, takePadded_append hlen2]
    · simp only [List.length_append, Container.bodySize, length_runsOnto, Bytes.length_words16]
      omega
  | false =>
    by_cases hlimit : Container.arrayLimit < h.count
    · rw [readBody?_bitset hr hlimit] at hread
      obtain ⟨⟨table, left⟩, h1, hc⟩ := Option.bind_eq_some_iff.1 hread
      obtain ⟨hlen, hbs⟩ := Bytes.split?_eq_some h1
      cases hc
      exact ⟨by rw [bodyAt_bitset hr hlimit, hbs, takePadded_append hlen], table, hbs, hlen⟩
    · rw [readBody?_array hr hlimit] at hread
      obtain ⟨⟨table, left⟩, h1, hc⟩ := Option.bind_eq_some_iff.1 hread
      obtain ⟨hlen, hbs⟩ := Bytes.split?_eq_some h1
      cases hc
      refine ⟨by rw [bodyAt_array hr hlimit, hbs, takePadded_append hlen], table, hbs, ?_⟩
      simp only [Container.bodySize, List.size_toArray, Bytes.length_words16]
      omega

/-! ## All bodies -/

theorem keys_of_readBodies? : ∀ {hs : List Head} {bs : Bytes} {cs : List (UInt16 × Container)},
    readBodies? hs bs = some cs → cs.map Prod.fst = hs.map Head.key
  | [], _, cs, h => by
    cases h
    rfl
  | hd :: hs, bs, cs, h => by
    rw [readBodies?] at h
    obtain ⟨⟨c, rest⟩, -, h⟩ := Option.bind_eq_some_iff.1 h
    obtain ⟨cs', h2, h⟩ := Option.bind_eq_some_iff.1 h
    cases h
    rw [List.map_cons, List.map_cons, keys_of_readBodies? h2]

def found (bs : Bytes) (p : Head × Nat) : Container := bodyAt p.1 (bs.drop p.2)

/-- Whether a body that is found at a start ends where the bytes end at the latest. -/
def inside (bs : Bytes) (p : Head × Nat) : Prop := p.2 + (found bs p).bodySize ≤ bs.length

/-- **Reading in place where the bodies start is reading in sequence**, and no body reaches past the end. -/
theorem map_found_offsets {bs : Bytes} : ∀ {hs : List Head} {start : Nat} {cs : List (UInt16 × Container)},
    readBodies? hs (bs.drop start) = some cs → start ≤ bs.length →
      (hs.zip (offsets start cs)).map (fun p => (p.1.key, found bs p)) = cs ∧
      ∀ p ∈ hs.zip (offsets start cs), inside bs p
  | [], _, cs, h, _ => by
    cases h
    exact ⟨rfl, fun p hp => by cases hp⟩
  | hd :: hs, start, cs, h, hstart => by
    rw [readBodies?] at h
    obtain ⟨⟨c, rest⟩, h1, h⟩ := Option.bind_eq_some_iff.1 h
    obtain ⟨cs', h2, h⟩ := Option.bind_eq_some_iff.1 h
    cases h
    obtain ⟨hbody, front, hsplit, hlen⟩ := bodyAt_of_readBody? h1
    have hrest : rest = bs.drop (start + c.bodySize) := by
      rw [← List.drop_drop, hsplit, ← hlen, List.drop_left]
    have hend : start + c.bodySize ≤ bs.length := by
      have := congrArg List.length hsplit
      rw [List.length_drop, List.length_append] at this
      omega
    have hfound : found bs (hd, start) = c := hbody
    obtain ⟨hmap, hin⟩ := map_found_offsets (hrest ▸ h2) hend
    rw [offsets, List.zip_cons_cons]
    refine ⟨by rw [List.map_cons, hmap, hfound], fun p hp => ?_⟩
    rcases List.mem_cons.1 hp with rfl | hp
    · rw [inside, hfound]
      exact hend
    · exact hin p hp

/-! ## The view -/

/-- The bodies one behind the other are found at the starts that their sizes give. -/
theorem map_found_bodiesFrom (bs : Bytes) : ∀ (hs : List Head) (start : Nat),
    (hs.zip (offsets start (bodiesFrom hs (bs.drop start)))).map (fun p => (p.1.key, found bs p))
      = bodiesFrom hs (bs.drop start)
  | [], _ => rfl
  | hd :: hs, start => by
    have ih := map_found_bodiesFrom bs hs (start + (bodyAt hd (bs.drop start)).bodySize)
    simp only [bodiesFrom, offsets, List.zip_cons_cons, List.map_cons, List.drop_drop, ih]
    rfl

def bodiesAt (bs : Bytes) (header : Header) : Nat := bs.length - header.bodies.length

/-- Where the view looks for each body: at its stored start, or behind the body before where no starts are stored. -/
def places (bs : Bytes) (header : Header) : List Nat :=
  header.starts.getD (offsets (bodiesAt bs header) (bodiesFrom header.heads header.bodies))

theorem readCookie?_eq_some {bs : Bytes} {n : Nat} {flags : Option Bytes} {rest : Bytes}
    (h : readCookie? bs = some (n, flags, rest)) : ∃ front : Bytes, bs = front ++ rest := by
  rw [readCookie?] at h
  obtain ⟨⟨first, tail⟩, h1, htail⟩ := Option.bind_eq_some_iff.1 h
  obtain ⟨-, hbs⟩ := Bytes.split?_eq_some h1
  have hlater : ∃ front : Bytes, tail = front ++ rest := by
    dsimp only at htail
    split at htail
    · obtain ⟨⟨bits, left⟩, h2, hn⟩ := Option.bind_eq_some_iff.1 htail
      cases hn
      exact ⟨bits, (Bytes.split?_eq_some h2).2⟩
    · split at htail
      · obtain ⟨⟨count, left⟩, h2, hn⟩ := Option.bind_eq_some_iff.1 htail
        dsimp only at hn
        split at hn
        · cases hn
          exact ⟨count, (Bytes.split?_eq_some h2).2⟩
        · cases hn
      · cases htail
  obtain ⟨front, hfront⟩ := hlater
  exact ⟨first ++ front, by rw [hbs, hfront, List.append_assoc]⟩

theorem readHeader?_eq_some {bs : Bytes} {header : Header} (h : readHeader? bs = some header) :
    ∃ front : Bytes, bs = front ++ header.bodies := by
  rw [readHeader?] at h
  obtain ⟨⟨n, flags, rest⟩, h1, hrest⟩ := Option.bind_eq_some_iff.1 h
  obtain ⟨front, hbs⟩ := readCookie?_eq_some h1
  obtain ⟨⟨table, left⟩, h2, hleft⟩ := Option.bind_eq_some_iff.1 hrest
  obtain ⟨-, htable⟩ := Bytes.split?_eq_some h2
  dsimp only at htable hleft
  split at hleft
  · obtain ⟨⟨starts, bodies⟩, h3, hheader⟩ := Option.bind_eq_some_iff.1 hleft
    obtain ⟨-, hstarts⟩ := Bytes.split?_eq_some h3
    cases hheader
    exact ⟨front ++ (table ++ starts), by rw [hbs, htable, hstarts, List.append_assoc, List.append_assoc]⟩
  · cases hleft
    exact ⟨front ++ table, by rw [hbs, htable, List.append_assoc]⟩

/-- **The bodies are the bytes behind the header.** -/
theorem drop_bodiesAt {bs : Bytes} {header : Header} (h : readHeader? bs = some header) :
    bs.drop (bodiesAt bs header) = header.bodies := by
  obtain ⟨front, hfront⟩ := readHeader?_eq_some h
  have hlen := congrArg List.length hfront
  rw [List.length_append] at hlen
  rw [bodiesAt, show bs.length - header.bodies.length = front.length by omega]
  conv => lhs; rw [hfront]
  exact List.drop_left

/-- **The view looks at its places and nowhere else.** -/
theorem view?_eq {bs : Bytes} {header : Header} (h : readHeader? bs = some header) :
    view? bs = some ⟨(header.heads.zip (places bs header)).map fun p => (p.1.key, found bs p)⟩ := by
  rw [view?, h, Option.bind_eq_bind, Option.bind_some]
  cases hs : header.starts with
  | some starts =>
    rw [places, hs, Option.getD_some]
    rfl
  | none =>
    have hbodies := map_found_bodiesFrom bs header.heads (bodiesAt bs header)
    rw [drop_bodiesAt h] at hbodies
    rw [places, hs, Option.getD_none, hbodies]
    rfl

theorem decode?_eq_some {bs : Bytes} {b : Bitmap} (h : decode? bs = some b) :
    b.valid = true ∧ ∃ header, readHeader? bs = some header ∧ readBodies? header.heads header.bodies = some b.containers := by
  rw [decode?] at h
  obtain ⟨header, h1, hbodies⟩ := Option.bind_eq_some_iff.1 h
  obtain ⟨cs, h2, hb⟩ := Option.bind_eq_some_iff.1 hbodies
  split at hb
  · rename_i hvalid
    cases hb
    exact ⟨hvalid, header, h1, h2⟩
  · cases hb

/-- **Where the view looks for the bodies in sequence, it shows what reading in sequence gives.** -/
theorem view?_of_decode? {bs : Bytes} {b : Bitmap} {header : Header} (h : decode? bs = some b)
    (hh : readHeader? bs = some header)
    (hplaces : places bs header = offsets (bodiesAt bs header) b.containers) :
    view? bs = some b ∧ ∀ p ∈ header.heads.zip (places bs header), inside bs p := by
  obtain ⟨-, header', hh', hread⟩ := decode?_eq_some h
  rw [hh, Option.some.injEq] at hh'
  subst hh'
  rw [← drop_bodiesAt hh] at hread
  obtain ⟨hmap, hin⟩ := map_found_offsets hread (Nat.sub_le _ _)
  rw [view?_eq hh, hplaces, hmap]
  exact ⟨rfl, hin⟩

/-! ## The view of an encoding -/

theorem bodiesFrom_of_readBodies? : ∀ {hs : List Head} {bs : Bytes} {cs : List (UInt16 × Container)},
    readBodies? hs bs = some cs → bodiesFrom hs bs = cs
  | [], _, _, h => by
    cases h
    rfl
  | hd :: hs, bs, cs, h => by
    rw [readBodies?] at h
    obtain ⟨⟨c, rest⟩, h1, hrest⟩ := Option.bind_eq_some_iff.1 h
    obtain ⟨cs', h2, hcs⟩ := Option.bind_eq_some_iff.1 hrest
    cases hcs
    obtain ⟨hbody, front, hsplit, hlen⟩ := bodyAt_of_readBody? h1
    have hdrop : bs.drop c.bodySize = rest := by rw [hsplit, ← hlen, List.drop_left]
    rw [bodiesFrom, hbody, hdrop, bodiesFrom_of_readBodies? h2]

/-- Whether every start that the header stores fits into its word. -/
def addressable (b : Bitmap) : Bool :=
  !storesOffsets (hasRuns b) b.containers.length || (offsets (headerSize b) b.containers).all (· < 2 ^ 32)

theorem headerSize_le {b : Bitmap} (h : b.containers.length ≤ 65536) : headerSize b ≤ 532484 := by
  unfold headerSize
  dsimp only
  split <;> split <;> omega

theorem offsets_le {m : Nat} : ∀ {start : Nat} {cs : List (UInt16 × Container)}, (∀ kc ∈ cs, kc.2.bodySize ≤ m) →
    ∀ at_ ∈ offsets start cs, at_ ≤ start + m * cs.length
  | _, [], _, at_, h => by cases h
  | start, (key, c) :: cs, hm, at_, h => by
    have hc : c.bodySize ≤ m := hm (key, c) List.mem_cons_self
    rw [offsets] at h
    rw [List.length_cons, Nat.mul_succ]
    rcases List.mem_cons.1 h with rfl | h
    · omega
    · have := offsets_le (fun kc hkc => hm kc (List.mem_cons_of_mem _ hkc)) at_ h
      omega

/-- **Starts fit unless bodies are shredded**: a bitmap whose bodies have fewer than `2 ^ 16 - 16` bytes each, as all bit
tables and arrays and all runs that are smaller than those have, is addressable. -/
theorem addressable_of_bodySize_le {b : Bitmap} (hb : b.valid = true) (h : ∀ kc ∈ b.containers, kc.2.bodySize ≤ 65520) :
    addressable b = true := by
  have hlen := Bitmap.length_containers_le hb
  have hhead := headerSize_le hlen
  rw [addressable, Bool.or_eq_true, List.all_eq_true]
  refine .inr fun at_ hat => decide_eq_true ?_
  have := offsets_le h at_ hat
  omega

theorem bodiesAt_encode_append (b : Bitmap) (rest : Bytes) (heads : List Head) (starts : Option (List Nat)) :
    bodiesAt (encode b ++ rest) ⟨heads, starts, (b.containers.flatMap fun (_, c) => body c) ++ rest⟩ = headerSize b := by
  simp only [bodiesAt, List.length_append, length_encode, size_eq, length_flatMap_body]
  omega

/-- **The view of an encoding is the bitmap**, whatever follows the encoding, if the starts fit into their words. -/
theorem view?_encode_append {b : Bitmap} (hb : b.valid = true) (hfit : addressable b = true) (rest : Bytes) :
    view? (encode b ++ rest) = some b := by
  have hheader := readHeader?_encode_append hb rest
  have hread := readBodies?_append b.containers rest (Bitmap.valid_iff.1 hb).2
  refine (view?_of_decode? (decode?_encode_append hb rest) hheader ?_).1
  rw [places, bodiesAt_encode_append, bodiesFrom_of_readBodies? hread]
  cases hst : storesOffsets (hasRuns b) b.containers.length with
  | true =>
    rw [addressable, hst, Bool.not_true, Bool.false_or, List.all_eq_true] at hfit
    rw [if_pos rfl, Option.getD_some]
    refine (List.map_congr_left fun start hstart => ?_).trans (List.map_id _)
    exact Nat.mod_eq_of_lt (of_decide_eq_true (hfit start hstart))
  | false => rfl

end Portable
end BitmapWorks
