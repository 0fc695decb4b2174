import Apogee.Lib.Links
import Apogee.Allocator.LinkedListSpec

/-!
# `coalesce` in place

The list-level `coalesce` rebuilds the list. The source rewires nodes where they lie: `slot` is a
pointer to the link that leads to the current node, and one run of the loop body either takes the
next node into the current one and stays, or moves `slot` on.

`Pass` is the state of the pass: the nodes behind `slot` are done, the nodes ahead are not, and
`done ++ fuse rest` is the result. Every body run takes one node off `rest` (`Pass.step`), so the
loop breaks after one more body run than there are regions, and what it leaves is what the
list-level `coalesce` returns (`coalesceInPlace_eq`).
-/

namespace Apogee

open Verif Span

namespace LinkedListAllocator

/-- `node` takes in `next`, the node after it. -/
def absorb (p : Profile) (m : Links Nat) (node next : Nat) : Panics (Links Nat) := do
  -- `node.next.take()`
  let m := m.setNext node none
  let size ← Word.add p (m.cell node).val (m.cell next).val
  let m := m.setVal node size
  -- `next.next.take()`
  let rest := (m.cell next).next
  let m := m.setNext next none
  pure (m.setNext node rest)

/-- The body of the loop of `coalesce`; no next state is its `break`. The content of a node is its
size. -/
def coalesceBody (p : Profile) : Links Nat × Slot → Panics (Option (Links Nat × Slot))
  | (m, slot) =>
    match m.read slot with
    | none => pure none
    | some node => do
      let nextBounds := (m.cell node).next
      let merge ← (match nextBounds with
        | some start => do return decide (start = (← Word.add p node (m.cell node).val))
        | none => pure false)
      if merge then
        let next ← expect (m.cell node).next "merge checked above"
        let m ← absorb p m node next
        pure (some (m, slot))
      else
        pure (some (m, .next node))

/-- `coalesce` on the nodes themselves, up to a number of body runs. -/
def coalesceInPlace (p : Profile) (fuel : Nat) (m : Links Nat) : Panics (Option (Links Nat)) := do
  let st ← Panics.loop (coalesceBody p) fuel (m, .head)
  pure (st.map Prod.fst)

/-- The regions as nodes: an address with a size. -/
def nodes (l : List ListNode) : List (Nat × Nat) := l.map fun r => (r.addr, r.size)

/-- The head leads through the regions of `l`, in order, to an empty link. -/
def Holds (m : Links Nat) (l : List ListNode) : Prop := m.Chain m.head (nodes l)

variable {p : Profile} {m m₀ : Links Nat} {slot : Slot} {r s : ListNode}
  {l done rest : List ListNode}

theorem nodes_append : nodes (done ++ rest) = nodes done ++ nodes rest := List.map_append

/-- An address that no region of `l` starts at is none of its nodes. -/
theorem ne_of_mem_nodes {a : Nat} (h : ∀ s ∈ l, s.addr ≠ a) {x : Nat × Nat} (hx : x ∈ nodes l) :
    x.1 ≠ a := by
  obtain ⟨s, hs, rfl⟩ := List.mem_map.mp hx
  exact h s hs

/-! ## One body run -/

/-- `absorb` writes the two nodes, and no other. -/
theorem absorb_eq (p : Profile) {node next : Nat} (hne : next ≠ node)
    (hsize : Word.add p (m.cell node).val (m.cell next).val =
      .ok ((m.cell node).val + (m.cell next).val)) :
    ∃ m', absorb p m node next = .ok m' ∧ m'.head = m.head ∧
      m'.cell node = ⟨(m.cell node).val + (m.cell next).val, (m.cell next).next⟩ ∧
      ∀ a, a ≠ node → a ≠ next → m'.cell a = m.cell a := by
  unfold absorb Links.setNext Links.setVal
  simp only [Links.set_cell, Links.set_cell_of_ne _ _ hne, Links.set_cell_of_ne _ _ hne.symm,
    hsize, Panics.bind_ok, Panics.pure_eq]
  refine ⟨_, rfl, rfl, Links.set_cell .., fun a hnode hnext => ?_⟩
  simp only [Links.set_cell_of_ne _ _ hnode, Links.set_cell_of_ne _ _ hnext]

theorem coalesceBody_break (h : m.read slot = none) : coalesceBody p (m, slot) = .ok none := by
  unfold coalesceBody
  simp only [h]
  rfl

/-- At the last region the slot moves on. -/
theorem coalesceBody_last (h : m.read slot = some r.addr) (hnext : (m.cell r.addr).next = none) :
    coalesceBody p (m, slot) = .ok (some (m, .next r.addr)) := by
  unfold coalesceBody
  simp only [h, hnext]
  rfl

/-- Before a gap the slot moves on. -/
theorem coalesceBody_gap (hreg : Regions (r :: s :: l)) (h : m.read slot = some r.addr)
    (hval : (m.cell r.addr).val = r.size) (hnext : (m.cell r.addr).next = some s.addr)
    (hgap : s.addr ≠ r.stop) : coalesceBody p (m, slot) = .ok (some (m, .next r.addr)) := by
  have hend : Word.add p r.addr r.size = .ok r.stop := hreg.endAddr_eq
  unfold coalesceBody
  simp [h, hnext, hval, hend, hgap]

/-- A touching region is taken in. -/
theorem coalesceBody_touch (hreg : Regions (r :: s :: l)) (h : m.read slot = some r.addr)
    (hval : (m.cell r.addr).val = r.size) (hnext : (m.cell r.addr).next = some s.addr)
    (htouch : s.addr = r.stop) :
    coalesceBody p (m, slot) = (do pure (some (← absorb p m r.addr s.addr, slot))) := by
  have hend : Word.add p r.addr r.size = .ok r.stop := hreg.endAddr_eq
  unfold coalesceBody
  simp [h, hnext, hval, hend, htouch, expect]

/-! ## The pass -/

theorem Regions.addr_lt (h : Regions l) : l.Pairwise fun r s => r.addr < s.addr := by
  refine h.ordered.imp_of_mem fun {r s} hr _ hrs => ?_
  have hpos := (h.region r hr).size_pos
  unfold stop at hrs
  omega

/-- The pass over `l` that began with the nodes `m₀`: what is behind `slot` is done. -/
structure Pass (m₀ : Links Nat) (l done rest : List ListNode) (m : Links Nat) (slot : Slot) :
    Prop where
  behind : m.Seg .head (nodes done) slot
  ahead : m.Chain (m.read slot) (nodes rest)
  regions : Regions (done ++ rest)
  joined : done ++ fuse rest = fuse l
  /-- Where nothing touches, nothing has been written. -/
  same : Gapped l → m = m₀ ∧ done ++ rest = l

theorem Pass.start (hreg : Regions l) (h : Holds m l) : Pass m l [] l m .head :=
  ⟨rfl, h, hreg, rfl, fun _ => ⟨rfl, rfl⟩⟩

theorem Pass.advance (h : Pass m₀ l done (r :: rest) m slot)
    (hfuse : fuse (r :: rest) = r :: fuse rest) :
    Pass m₀ l (done ++ [r]) rest m (.next r.addr) := by
  obtain ⟨hread, hval, hrest⟩ := h.ahead
  refine ⟨?_, hrest, ?_, ?_, ?_⟩
  · rw [nodes_append]
    exact h.behind.append ⟨hread, hval, rfl⟩
  · rw [List.append_assoc]
    exact h.regions
  · rw [List.append_assoc, ← h.joined, hfuse]
    rfl
  · rw [List.append_assoc]
    exact h.same

theorem Pass.absorb (h : Pass m₀ l done (r :: s :: rest) m slot) (htouch : s.addr = r.stop) :
    ∃ m', absorb p m r.addr s.addr = .ok m' ∧
      Pass m₀ l done (⟨r.addr, r.size + s.size⟩ :: rest) m' slot := by
  obtain ⟨hread, hrval, hrnext, hsval, hrest⟩ := h.ahead
  -- The two nodes are at addresses of their own.
  obtain ⟨-, hright, hcross⟩ := List.pairwise_append.mp h.regions.addr_lt
  obtain ⟨hr, hright⟩ := List.pairwise_cons.mp hright
  obtain ⟨hs, -⟩ := List.pairwise_cons.mp hright
  have hrs := hr s (.head _)
  have hadd := h.regions.right.add_eq (p := p) htouch
  rw [← hrval, ← hsval] at hadd
  obtain ⟨m', habs, hhead, hcell, hother⟩ := absorb_eq p hrs.ne' hadd
  have hdone : ∀ x ∈ nodes done, m'.cell x.1 = m.cell x.1 := by
    intro x hx
    apply hother
    · exact ne_of_mem_nodes (fun q hq => (hcross q hq r (.head _)).ne) hx
    · exact ne_of_mem_nodes (fun q hq => (hcross q hq s (.tail _ (.head _))).ne) hx
  have hahead : ∀ x ∈ nodes rest, m'.cell x.1 = m.cell x.1 := by
    intro x hx
    apply hother
    · exact ne_of_mem_nodes (fun q hq => (hr q (.tail _ hq)).ne') hx
    · exact ne_of_mem_nodes (fun q hq => (hs q hq).ne') hx
  refine ⟨m', habs, h.behind.frame hhead hdone, ⟨?_, ?_, ?_⟩, h.regions.join htouch, ?_, ?_⟩
  · rw [h.behind.read_end hhead hdone, hread]
  · rw [hcell, hrval, hsval]
  · rw [hcell]
    exact hrest.frame hahead
  · rw [← h.joined]
    simp only [fuse, fuseFrom, if_pos htouch]
  · intro hg
    rw [← (h.same hg).2] at hg
    have hgap := (List.pairwise_cons.mp (List.pairwise_append.mp hg).2.1).1 s (.head _)
    omega

/-- A body run takes one region off the ones ahead. -/
theorem Pass.step (h : Pass m₀ l done (r :: rest) m slot) :
    ∃ m' slot' done' rest', coalesceBody p (m, slot) = .ok (some (m', slot')) ∧
      rest'.length = rest.length ∧ Pass m₀ l done' rest' m' slot' := by
  obtain ⟨hread, hval, hrest⟩ := h.ahead
  cases rest with
  | nil => exact ⟨m, _, _, [], coalesceBody_last hread hrest, rfl, h.advance rfl⟩
  | cons s rest =>
    have hreg := h.regions.right
    by_cases htouch : s.addr = r.stop
    · obtain ⟨m', habs, h'⟩ := h.absorb (p := p) htouch
      have hbody := coalesceBody_touch (p := p) hreg hread hval hrest.1 htouch
      rw [habs] at hbody
      exact ⟨m', slot, done, ⟨r.addr, r.size + s.size⟩ :: rest, hbody, rfl, h'⟩
    · have hfuse : fuse (r :: s :: rest) = r :: fuse (s :: rest) := by
        simp only [fuse, fuseFrom, if_neg htouch]
      exact ⟨m, _, _, s :: rest, coalesceBody_gap hreg hread hval hrest.1 htouch, rfl,
        h.advance hfuse⟩

/-- The loop in place is the list-level `coalesce`. -/
theorem coalesceInPlace_eq (p : Profile) (hreg : Regions l) (h : Holds m l) {fuel : Nat}
    (hfuel : l.length < fuel) :
    ∃ m', coalesceInPlace p fuel m = .ok (some m') ∧ Holds m' (fuse l) ∧ (Gapped l → m' = m) := by
  let I (n : Nat) (st : Links Nat × Slot) : Prop :=
    ∃ done rest, rest.length = n ∧ Pass m l done rest st.1 st.2
  have hstep : ∀ n st, I n st →
      coalesceBody p st = .ok none ∧ (Holds st.1 (fuse l) ∧ (Gapped l → st.1 = m)) ∨
      ∃ st' n', coalesceBody p st = .ok (some st') ∧ n' < n ∧ I n' st' := by
    rintro n ⟨m', slot⟩ ⟨done, rest, rfl, hpass⟩
    cases rest with
    | nil =>
      have hbehind := hpass.behind.chain hpass.ahead
      rw [← nodes_append, ← show fuse [] = ([] : List Span) from rfl, hpass.joined] at hbehind
      exact .inl ⟨coalesceBody_break hpass.ahead, hbehind, fun hg => (hpass.same hg).1⟩
    | cons r rest =>
      obtain ⟨m', slot', done', rest', hbody, hlen, hpass'⟩ := hpass.step (p := p)
      refine .inr ⟨(m', slot'), rest'.length, hbody, ?_, done', rest', rfl, hpass'⟩
      rw [hlen, List.length_cons]
      exact Nat.lt_succ_self _
  have hstart : I l.length (m, .head) := ⟨[], l, rfl, Pass.start hreg h⟩
  obtain ⟨st, hloop, hholds, hsame⟩ := Panics.loop_spec hstep hfuel hstart
  exact ⟨st.1, by unfold coalesceInPlace; rw [hloop]; rfl, hholds, hsame⟩

/-! ## Maximal intervals -/

/-- `l'` covers the bytes of `l` with regions that do not touch. -/
structure Maximal (l l' : List ListNode) : Prop where
  gapped : Gapped l'
  size_pos : ∀ r ∈ l', 0 < r.size
  cover : cover l' = cover l

theorem Maximal.unique {l₁ l₂ : List ListNode} (h₁ : Maximal l l₁) (h₂ : Maximal l l₂) : l₁ = l₂ :=
  h₁.gapped.eq_of_cover h₂.gapped h₁.size_pos h₂.size_pos (h₁.cover.trans h₂.cover.symm)

theorem Regions.maximal (h : Regions l) : Maximal l (fuse l) where
  gapped := h.ordered.fuse_gapped fun r hr => (h.region r hr).size_pos
  size_pos r hr := by
    obtain ⟨s, hs, -, hle⟩ := mem_fuse hr
    exact Nat.lt_of_lt_of_le (h.region s hs).size_pos hle
  cover := cover_fuse l

/-- **One pass joins everything that touches.** For free regions in address order, the result of
`coalesce` is the one list of regions that do not touch and cover the same bytes. It has the same
total size, and it is the list itself if nothing in it touches. The loop on the nodes breaks, after
at most one body run more than there are regions, and leaves the nodes of that list. -/
theorem coalesce_maximal (p : Profile) (l : List ListNode) (h : Regions l) :
    ∃ l', coalesce p l = .ok l' ∧ Maximal l l' ∧ (∀ l'', Maximal l l'' → l'' = l') ∧
      total l' = total l ∧ (Gapped l → l' = l) ∧
      ∀ m, Holds m l → ∀ fuel, l.length < fuel →
        ∃ m', coalesceInPlace p fuel m = .ok (some m') ∧ Holds m' l' ∧ (Gapped l → m' = m) := by
  refine ⟨fuse l, coalesce_eq h, h.maximal, fun l'' hl'' => hl''.unique h.maximal, total_fuse l,
    fun hg => ?_, fun m hm fuel hfuel => coalesceInPlace_eq p h hm hfuel⟩
  exact h.maximal.unique ⟨hg, fun r hr => (h.region r hr).size_pos, rfl⟩

/-- Three regions that touch, and one behind a gap. -/
theorem coalesce_maximal_run :
    ∃ m m', Holds m [⟨0x1000, 16⟩, ⟨0x1010, 16⟩, ⟨0x1020, 32⟩, ⟨0x2000, 16⟩] ∧
      coalesceInPlace .dev 5 m = .ok (some m') ∧ Holds m' [⟨0x1000, 64⟩, ⟨0x2000, 16⟩] := by
  have hreg : Regions [⟨0x1000, 16⟩, ⟨0x1010, 16⟩, ⟨0x1020, 32⟩, ⟨0x2000, 16⟩] := by
    refine ⟨by simp [Ordered, stop], fun r hr => ?_⟩
    simp only [List.mem_cons, List.not_mem_nil, or_false] at hr
    rcases hr with rfl | rfl | rfl | rfl <;> exact ⟨by decide, by decide, by decide⟩
  let cell (a : Nat) : Cell Nat :=
    if a = 0x1000 then ⟨16, some 0x1010⟩ else if a = 0x1010 then ⟨16, some 0x1020⟩
    else if a = 0x1020 then ⟨32, some 0x2000⟩ else ⟨16, none⟩
  have hm : Holds ⟨some 0x1000, cell⟩
      [⟨0x1000, 16⟩, ⟨0x1010, 16⟩, ⟨0x1020, 32⟩, ⟨0x2000, 16⟩] := by
    simp [Holds, nodes, Links.Chain, cell]
  obtain ⟨l', hl', -, -, -, -, hrun⟩ := coalesce_maximal .dev _ hreg
  obtain ⟨m', hm', hholds, -⟩ := hrun _ hm 5 (by decide)
  obtain rfl : [⟨0x1000, 64⟩, ⟨0x2000, 16⟩] = l' := Except.ok.inj hl'
  exact ⟨_, m', hm, hm', hholds⟩

end LinkedListAllocator

end Apogee
