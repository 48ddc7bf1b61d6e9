import Irena.Prunella.Store
import Mathlib.Data.List.Nodup

/-! # Facts about well-formed chains

Heights are positions, no transaction id is committed twice, and what is found on a chain is found
alike on every chain that extends it. -/

namespace Irena.Prunella.LocalChainStore

open Irena.Library Irena.Library.Outcome

/-- The transactions of a chain, in chain order. -/
def transactions (s : LocalChainStore) : List Transaction := s.blocks.flatMap Block.transactions

/-- `t` holds every block of `s`, at the same height. -/
def Extends (s t : LocalChainStore) : Prop := t.networkId = s.networkId ∧ s.blocks <+: t.blocks

theorem containsTransaction_iff {s : LocalChainStore} {id : TxId} :
    s.containsTransaction id = true ↔ id ∈ s.transactions.map Transaction.id := by
  simp only [containsTransaction, transactions, List.any_eq_true, beq_iff_eq, List.mem_map,
    List.mem_flatMap]
  exact ⟨fun ⟨b, hb, t, ht, hid⟩ => ⟨t, ⟨b, hb, ht⟩, hid⟩,
    fun ⟨t, ⟨b, hb, ht⟩, hid⟩ => ⟨b, hb, t, ht, hid⟩⟩

theorem containsTransaction_eq_false {s : LocalChainStore} {id : TxId} :
    s.containsTransaction id = false ↔ id ∉ s.transactions.map Transaction.id := by
  rw [← containsTransaction_iff, Bool.not_eq_true]

theorem findTransaction_append (id : TxId) (height : ℕ) (bs cs : List Block) :
    findTransaction id height (bs ++ cs) =
      (findTransaction id height bs).or (findTransaction id (height + bs.length) cs) := by
  induction bs generalizing height with
  | nil => simp [findTransaction]
  | cons b bs ih =>
    rw [List.cons_append, findTransaction, findTransaction]
    cases b.transactions.zipIdx.find? fun p => p.1.id == id with
    | some p => simp
    | none =>
      simp only [ih]
      rw [List.length_cons, Nat.add_assoc, Nat.add_comm 1]

/-- What a search finds stands at the place it names. -/
theorem findTransaction_some {id : TxId} {height : ℕ} {bs : List Block}
    {l : LocatedTransaction} (h : findTransaction id height bs = some l) :
    l.transaction.id = id ∧ ∃ i b, l.height = height + i ∧ bs[i]? = some b ∧
      b.transactions[l.index]? = some l.transaction := by
  induction bs generalizing height with
  | nil => cases h
  | cons b bs ih =>
    rw [findTransaction] at h
    cases hfind : b.transactions.zipIdx.find? fun p => p.1.id == id with
    | none =>
      rw [hfind] at h
      obtain ⟨hid, i, c, hheight, hc, ht⟩ := ih h
      exact ⟨hid, i + 1, c, by omega, by simpa using hc, ht⟩
    | some p =>
      rw [hfind] at h
      obtain rfl := Option.some.inj h
      have hid : p.1.id = id := by simpa using List.find?_some hfind
      have hmem := List.mem_of_find?_eq_some hfind
      have hget := (List.mk_mem_zipIdx_iff_getElem? (i := p.2) (x := p.1)).mp hmem
      exact ⟨hid, 0, b, rfl, rfl, hget⟩

theorem findTransaction_eq_none {id : TxId} {height : ℕ} {bs : List Block} :
    findTransaction id height bs = none ↔ ∀ b ∈ bs, ∀ t ∈ b.transactions, t.id ≠ id := by
  induction bs generalizing height with
  | nil => simp [findTransaction]
  | cons b bs ih =>
    rw [findTransaction]
    cases hfind : b.transactions.zipIdx.find? fun p => p.1.id == id with
    | none =>
      rw [List.find?_eq_none] at hfind
      have hb : ∀ t ∈ b.transactions, t.id ≠ id := by
        intro t ht heq
        obtain ⟨i, hi⟩ := List.mem_iff_getElem?.mp ht
        exact hfind (t, i) ((List.mk_mem_zipIdx_iff_getElem?).mpr hi) (by simp [heq])
      simpa [ih] using fun _ => hb
    | some p =>
      have hid : p.1.id = id := by simpa using List.find?_some hfind
      have hmem : p.1 ∈ b.transactions := List.fst_mem_of_mem_zipIdx (List.mem_of_find?_eq_some hfind)
      simp only [reduceCtorEq, List.mem_cons, false_iff]
      intro h
      exact h b (.inl rfl) p.1 hmem hid

theorem Extends.refl (s : LocalChainStore) : s.Extends s := ⟨rfl, List.prefix_refl _⟩

theorem Extends.trans {s t u : LocalChainStore} (h : s.Extends t) (k : t.Extends u) : s.Extends u :=
  ⟨k.1.trans h.1, h.2.trans k.2⟩

theorem extends_of_sameChain {s t : LocalChainStore} (h : SameChain s t) : s.Extends t := by
  refine ⟨h.1, ?_⟩
  rw [blocks, blocks, h.2.1, h.2.2]

theorem blocks_of_sameChain {s t : LocalChainStore} (h : SameChain s t) : t.blocks = s.blocks := by
  rw [blocks, blocks, h.2.1, h.2.2]

theorem extends_push (s : LocalChainStore) (b : Block) : s.Extends (s.push b) :=
  ⟨rfl, List.prefix_append _ _⟩

theorem Extends.getTransaction {s t : LocalChainStore} (h : s.Extends t) {id : TxId}
    {l : LocatedTransaction} (hl : s.getTransaction id = some l) : t.getTransaction id = some l := by
  obtain ⟨more, hmore⟩ := h.2
  unfold LocalChainStore.getTransaction at hl ⊢
  rw [← hmore, findTransaction_append, hl]
  rfl

theorem Extends.getBlock {s t : LocalChainStore} (h : s.Extends t) {height : ℕ} {b : Block}
    (hb : s.getBlock height = some b) : t.getBlock height = some b := by
  obtain ⟨more, hmore⟩ := h.2
  unfold LocalChainStore.getBlock at hb ⊢
  rw [← hmore, List.getElem?_append_left (List.getElem?_eq_some_iff.mp hb).1, hb]

/-- A lookup on a chain sees the transaction in its block. -/
theorem getTransaction_some {s : LocalChainStore} {id : TxId} {l : LocatedTransaction}
    (h : s.getTransaction id = some l) :
    l.transaction.id = id ∧ ∃ b, s.getBlock l.height = some b ∧
      b.transactions[l.index]? = some l.transaction := by
  obtain ⟨hid, i, b, hheight, hb, ht⟩ := findTransaction_some h
  rw [Nat.zero_add] at hheight
  exact ⟨hid, b, by rw [hheight]; exact hb, ht⟩

theorem getTransaction_eq_none {s : LocalChainStore} {id : TxId} :
    s.getTransaction id = none ↔ id ∉ s.transactions.map Transaction.id := by
  rw [LocalChainStore.getTransaction, findTransaction_eq_none]
  simp only [transactions, List.mem_map, List.mem_flatMap, not_exists, not_and]
  exact ⟨fun h t ⟨b, hb, ht⟩ => h b hb t ht, fun h b hb t ht => h t ⟨b, hb, ht⟩⟩

section Rules

variable [Platform]

theorem Extends.height_le {s t : LocalChainStore} (h : s.Extends t) : s.head.height ≤ t.head.height := by
  have hlen := h.2.length_le
  rw [blocks_length, blocks_length] at hlen
  omega

theorem height_le_of_getBlock {s : LocalChainStore} {height : ℕ} {b : Block}
    (h : s.getBlock height = some b) : height ≤ s.head.height := by
  have hlt := (List.getElem?_eq_some_iff.mp h).1
  rw [blocks_length] at hlt
  omega

/-- The blocks up to a height of the shorter chain are the same on both. -/
theorem Extends.iterBlocks {s t : LocalChainStore} (h : s.Extends t) {last : ℕ}
    (hlast : last ≤ s.head.height) : t.iterBlocks last = s.iterBlocks last := by
  obtain ⟨more, hmore⟩ := h.2
  have hle : last + 1 ≤ s.blocks.length := by
    rw [blocks_length]
    omega
  rw [LocalChainStore.iterBlocks, LocalChainStore.iterBlocks, ← hmore,
    List.take_append_of_le_length hle]

theorem iterBlocks_head (s : LocalChainStore) : s.iterBlocks s.head.height = s.blocks := by
  rw [LocalChainStore.iterBlocks, List.take_of_length_le]
  rw [blocks_length]

/-- A block of a well-formed chain follows from the blocks before it by the rules. -/
theorem WellFormed.childOf {s t : LocalChainStore} {b : Block} (ht : t.WellFormed)
    (hext : (s.push b).Extends t) :
    ChildOf s.networkId s.headBlock.header s.containsTransaction b := by
  induction ht with
  | genesis hgen faults =>
    have hlength := hext.2.length_le
    rw [blocks_push, List.length_append, blocks_length] at hlength
    exact absurd hlength (by simp [blocks])
  | @push u t c hu hc hsame ih =>
    obtain ⟨hnetwork, hprefix⟩ := hext
    rw [blocks_of_sameChain hsame, blocks_push, blocks_push] at hprefix
    rcases List.prefix_concat_iff.mp hprefix with hlast | hearlier
    · obtain ⟨hblocks, hb⟩ := List.append_inj' hlast rfl
      obtain rfl : b = c := (List.cons.inj hb).1
      obtain ⟨hgenesis, hlater⟩ := List.cons.inj hblocks
      have hid : u.networkId = s.networkId := hsame.1.symm.trans hnetwork
      obtain ⟨network, genesis, later, faults⟩ := s
      obtain ⟨network', genesis', later', faults'⟩ := u
      dsimp only at hgenesis hlater hid
      subst hgenesis hlater hid
      exact hc
    · exact ih ⟨hsame.1.symm.trans hnetwork, hearlier⟩

theorem WellFormed.height {s : LocalChainStore} (hs : s.WellFormed) {height : ℕ}
    {b : Block} (h : s.getBlock height = some b) : b.header.height = height := by
  induction hs generalizing height b with
  | genesis hgen faults =>
    have hzero := height_le_of_getBlock h
    obtain rfl : height = 0 := Nat.le_zero.mp hzero
    obtain rfl := Option.some.inj h
    exact hgen.height
  | push hs hb ht ih =>
    rename_i s t c
    rw [getBlock, blocks_of_sameChain ht, blocks_push] at h
    rcases Nat.lt_or_ge height s.blocks.length with hlt | hge
    · rw [List.getElem?_append_left hlt] at h
      exact ih h
    · rw [List.getElem?_append_right hge] at h
      have heq : height = s.blocks.length := by
        have hlt := (List.getElem?_eq_some_iff.mp h).1
        rw [List.length_singleton] at hlt
        omega
      have hhead := ih (getBlock_head s)
      have hheight := hb.height
      rw [heq, Nat.sub_self] at h
      obtain rfl := Option.some.inj h
      rw [heq, blocks_length, hheight, hhead]

/-- The blocks of a well-formed chain name the chain's network. -/
theorem WellFormed.head_network {s : LocalChainStore} (hs : s.WellFormed) :
    s.headBlock.header.networkId = s.networkId := by
  cases hs with
  | genesis hgen faults => exact hgen.network
  | push hs hb ht =>
    rename_i u b
    have hhead : s.headBlock = b := by
      rw [headBlock, ht.2.1, ht.2.2]
      exact headBlock_push u b
    rw [hhead, ht.1]
    exact hb.network

theorem WellFormed.head_height {s : LocalChainStore} (hs : s.WellFormed) :
    s.headBlock.header.height = s.head.height :=
  hs.height (getBlock_head s)

/-- Every transaction of a well-formed chain has its derived id and a signature that verifies. -/
theorem WellFormed.sound {s : LocalChainStore} (hs : s.WellFormed) :
    ∀ t ∈ s.transactions, t.Sound := by
  induction hs with
  | genesis hgen faults => simpa [transactions, blocks] using hgen.sound
  | push hs hb ht ih =>
    intro t hmem
    rw [transactions, blocks_of_sameChain ht, blocks_push, List.flatMap_append] at hmem
    rcases List.mem_append.mp hmem with hmem | hmem
    · exact ih t hmem
    · exact hb.sound t (by simpa using hmem)

/-- No transaction id is committed twice. -/
theorem WellFormed.nodup {s : LocalChainStore} (hs : s.WellFormed) :
    (s.transactions.map Transaction.id).Nodup := by
  induction hs with
  | genesis hgen faults => simpa [transactions, blocks] using hgen.nodup
  | push hs hb ht ih =>
    rw [transactions, blocks_of_sameChain ht, blocks_push, List.flatMap_append, List.map_append,
      List.flatMap_singleton]
    refine List.nodup_append.mpr ⟨ih, hb.nodup, ?_⟩
    rintro id hid _ hid' rfl
    obtain ⟨t, ht, rfl⟩ := List.mem_map.mp hid'
    exact containsTransaction_eq_false.mp (hb.fresh t ht) hid

/-- On a well-formed chain a lookup finds a transaction exactly where it stands. -/
theorem WellFormed.getTransaction {s : LocalChainStore} (hs : s.WellFormed) {height index : ℕ}
    {b : Block} {t : Transaction} (hb : s.getBlock height = some b)
    (ht : b.transactions[index]? = some t) :
    s.getTransaction t.id = some ⟨height, index, t⟩ := by
  have hmem : t ∈ b.transactions := List.mem_of_getElem? ht
  have hsplit : s.blocks = s.blocks.take height ++ b :: s.blocks.drop (height + 1) := by
    obtain ⟨hlt, rfl⟩ := List.getElem?_eq_some_iff.mp hb
    rw [List.getElem_cons_drop, List.take_append_drop]
  have hlen : (s.blocks.take height).length = height := by
    have := (List.getElem?_eq_some_iff.mp hb).1
    rw [List.length_take]
    omega
  have hnodup := hs.nodup
  rw [transactions, hsplit, List.flatMap_append, List.flatMap_cons, List.map_append,
    List.map_append] at hnodup
  obtain ⟨-, hrest, hdisjoint⟩ := List.nodup_append.mp hnodup
  have hbefore : findTransaction t.id 0 (s.blocks.take height) = none := by
    rw [findTransaction_eq_none]
    intro c hc u hu heq
    refine hdisjoint u.id ?_ t.id ?_ heq
    · exact List.mem_map.mpr ⟨u, List.mem_flatMap.mpr ⟨c, hc, hu⟩, rfl⟩
    · exact List.mem_append.mpr (.inl (List.mem_map.mpr ⟨t, hmem, rfl⟩))
  have hblock := (List.nodup_append.mp hrest).1
  have hfind : (b.transactions.zipIdx.find? fun p => p.1.id == t.id) = some (t, index) := by
    rw [List.find?_eq_some_iff_getElem]
    obtain ⟨hlt, rfl⟩ := List.getElem?_eq_some_iff.mp ht
    refine ⟨by simp, index, by simpa using hlt, by simp, fun j hj => ?_⟩
    have hj' : j < b.transactions.length := by omega
    simp only [List.getElem_zipIdx, Nat.zero_add, Bool.not_eq_true', beq_eq_false_iff_ne]
    intro heq
    have hj'' : j < (b.transactions.map Transaction.id).length := by simpa using hj'
    have hlt' : index < (b.transactions.map Transaction.id).length := by simpa using hlt
    have hidx := (@List.Nodup.getElem_inj_iff _ _ hblock j hj'' index hlt').mp (by simpa using heq)
    omega
  rw [LocalChainStore.getTransaction, hsplit, findTransaction_append, hbefore, hlen, findTransaction,
    hfind]
  simp

end Rules

end Irena.Prunella.LocalChainStore
