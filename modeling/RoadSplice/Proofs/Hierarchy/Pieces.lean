/-
  RoadSplice.Proofs.Hierarchy.Pieces — where the route on a view leads.

  A view adds the pieces of an overlay to the edges of a hierarchy.  Pieces are no shortcuts, and
  the shortcuts of the hierarchy are found below them as before; so a route on a view leads over
  roads and pieces, each piece taken in its own direction or against it, whatever the weights are
  and whatever is marked.
-/
import RoadSplice.Proofs.Hierarchy.ViewEdges
import RoadSplice.Proofs.Hierarchy.Woven
import RoadSplice.Proofs.Query.Opened

namespace RoadSplice

open HierarchyEdge

variable {K : Type} {R : Hop → Prop} {h : Hierarchy K} {q : QueryGraph K} {v : HierarchyView K}

/-! ## §1. What a view is made of. -/

/-- A hop over a piece, in its direction or against it. -/
def QueryGraph.PieceHop (q : QueryGraph K) (x : Hop) : Prop :=
  ∃ i p, q.overlay.piece? i = some p ∧ (x = ⟨p.base, p.adj, p.id⟩ ∨ x = ⟨p.adj, p.base, p.id⟩)

/-- **A view over a query graph**: each of its pieces is that of the overlay at the same place. -/
structure HierarchyView.LiesOver (v : HierarchyView K) (h : RoutingHierarchy K) (q : QueryGraph K) :
    Prop where
  below : v.below = h
  query : v.query = q
  piece : ∀ (i : Nat) e, v.pieces[i]? = some e → ∃ p, q.overlay.piece? i = some p ∧
    e.base = p.base ∧ e.adj = p.adj ∧ e.underlying = some p.id ∧ e.skipped = none

variable [Scalar K]

/-- **How a view is made**: its ids fit, and each of its pieces is that of the query graph at the same
place, weighed as the query graph is. -/
structure HierarchyView.Made (v : HierarchyView K) (r : RoutingHierarchy K) (q : QueryGraph K)
    (w : Weighting K) : Prop where
  below : v.below = r
  query : v.query = q
  shift : q.base.edgeCount + v.shift = r.edgeCount
  fits : r.edgeCount + q.overlay.edgeCount ≤ edgeLimit
  piece : ∀ i : Nat, v.pieces[i]? =
    (q.pieceView i).map (pieceEdge (QueryGraph.wrap q.overlay w) v.shift)

/-- **What is made is a view** over the query graph. -/
theorem HierarchyView.made_of_make {r : RoutingHierarchy K} {w : Weighting K}
    (hmake : HierarchyView.make r q w = .ok v) : v.Made r q w := by
  unfold HierarchyView.make at hmake
  dsimp only at hmake
  split at hmake
  · cases hmake
  · rename_i hlimit
    obtain rfl := Except.ok.inj hmake
    obtain ⟨hfits, hroads⟩ := not_or.1 hlimit
    exact ⟨rfl, rfl, Nat.add_sub_of_le (Nat.le_of_not_lt hroads), Nat.le_of_not_lt hfits,
      q.getElem?_pieces _⟩

/-- **When there is a view**: the hierarchy has an edge for each road, and all ids fit. -/
theorem HierarchyView.exists_make_iff {r : RoutingHierarchy K} {q : QueryGraph K}
    {w : Weighting K} : (∃ v, make r q w = .ok v) ↔
      q.base.edgeCount ≤ r.edgeCount ∧ r.edgeCount + q.overlay.edgeCount ≤ edgeLimit := by
  constructor
  · rintro ⟨v, hv⟩
    have hv := made_of_make hv
    exact ⟨hv.shift ▸ Nat.le_add_right _ _, hv.fits⟩
  · rintro ⟨hle, hfits⟩
    unfold make
    dsimp only
    rw [if_neg (by omega)]
    exact ⟨_, rfl⟩

theorem HierarchyView.liesOver_of_make {r : RoutingHierarchy K} {w : Weighting K}
    (hmake : HierarchyView.make r q w = .ok v) : v.LiesOver r q := by
  have hmade := made_of_make hmake
  refine ⟨hmade.below, hmade.query, fun i e he => ?_⟩
  rw [hmade.piece] at he
  obtain ⟨u, hu, rfl⟩ := Option.map_eq_some_iff.1 he
  obtain ⟨p, hp, rfl⟩ := Option.map_eq_some_iff.1 hu
  exact ⟨p, hp, rfl, rfl, rfl, rfl⟩

/-! ## §2. What a view lists. -/

/-- A side of the search on a view is offered pieces and edges of the hierarchy. -/
theorem HierarchyView.mem_sideEdges {forward : Bool} {n : NodeId} {e : HierarchyEdge K}
    (he : e ∈ v.routing.sideEdges forward n) :
    (∃ i ∈ v.query.overlay.placesAt n, v.pieces[i]? = some e) ∨
      e ∈ v.below.sideEdges forward n := by
  have hside : v.routing.sideEdges forward n = v.edgesAt forward (v.below.sideEdges forward) n := by
    cases forward <;> rfl
  rw [hside, HierarchyView.edgesAt_eq, List.mem_append] at he
  refine he.imp (fun he => List.mem_filterMap.1 (List.mem_of_mem_filter he)) fun he => ?_
  split at he
  · cases he
  · exact List.mem_of_mem_filter he

/-- An edge of a view: one of the hierarchy or a piece, in either direction. -/
def HierarchyView.Lists (v : HierarchyView K) (h : Hierarchy K) (e : HierarchyEdge K) : Prop :=
  InTable h.edges e ∨ InTable v.pieces e

omit [Scalar K] in
/-- A piece of a view is a hop over one of the overlay, and no shortcut. -/
theorem HierarchyView.LiesOver.piece_hop {r : RoutingHierarchy K} (hv : v.LiesOver r q)
    {e : HierarchyEdge K} (he : InTable v.pieces e) :
    e.skipped = none ∧ e.underlying.isSome = true ∧ q.PieceHop (hopOf e) := by
  obtain he | he := he
  · obtain ⟨i, hi⟩ := Array.mem_iff_getElem?.1 he
    obtain ⟨p, hp, hbase, hadj, hid, hskipped⟩ := hv.piece i e hi
    refine ⟨hskipped, by rw [hid]; rfl, i, p, hp, .inl ?_⟩
    rw [hopOf, hbase, hadj, hid]
    rfl
  · obtain ⟨i, hi⟩ := Array.mem_iff_getElem?.1 he
    obtain ⟨p, hp, hbase, hadj, hid, hskipped⟩ := hv.piece i e.reversed hi
    have hid : e.underlying = some p.id := hid
    refine ⟨?_, by rw [hid]; rfl, i, p, hp, .inr ?_⟩
    · simpa [reversed] using hskipped
    · rw [hopOf, hid, show e.base = p.adj from hadj, show e.adj = p.base from hbase]
      rfl

/-- **The edges of a view stand for roads and pieces.** -/
theorem HierarchyView.LiesOver.standsFor (hv : v.LiesOver h.routing q) (hw : Woven R h.edges) :
    v.routing.StandsFor (fun x => R x ∨ q.PieceHop x) (v.Lists h) where
  reversed e he := by
    unfold HierarchyView.Lists InTable at he ⊢
    rw [reversed_reversed]
    exact he.imp Or.symm Or.symm
  hop e he hskipped := by
    obtain he | he := he
    · exact (hw.hop e he hskipped).imp_right .inl
    · exact (hv.piece_hop he).2.imp_right .inr
  skips e a b f f' he hskipped hf hf' := by
    obtain he | he := he
    · -- What a shortcut skips is in the table of the hierarchy, and is found there.
      obtain ⟨k, k', m, hk, hk', hends⟩ := hw.skips_inTable he hskipped
      have hlookup : ∀ (i : EdgeId) k, h.edges[i]? = some k → v.routing.edge i none = .ok k := by
        intro i k hi
        have hlt : i < v.below.edgeCount := by
          rw [hv.below]
          exact (Array.getElem?_eq_some_iff.1 hi).1
        show v.edge i none = .ok k
        rw [HierarchyView.edge, if_pos hlt, hv.below]
        exact Hierarchy.edge_none.2 hi
      have hfk : f = k := Except.ok.inj (hf.symm.trans (hlookup a k hk))
      have hfk' : f' = k' := Except.ok.inj (hf'.symm.trans (hlookup b k' hk'))
      subst hfk hfk'
      exact ⟨.inl (.inl (Array.mem_of_getElem? hk)), .inl (.inl (Array.mem_of_getElem? hk')), m,
        hends⟩
    · rw [(hv.piece_hop he).1] at hskipped
      cases hskipped

variable {g : RoadGraph K} {w w' : Weighting K} {s t : NodeId}

/-- **A route on a view is a path over roads and pieces**, whatever the weights are. -/
theorem hops_of_view_route (hcontract : contract g w = .ok h) (hq : q.Sound)
    (hmake : HierarchyView.make h.routing q w' = .ok v) {p : Path K}
    (hroute : v.routing.route s t = .ok (some p)) :
    p.Hops (fun x => g.RoadHop x ∨ q.PieceHop x) s t := by
  have hv := HierarchyView.liesOver_of_make hmake
  refine (hv.standsFor (woven_of_contract hcontract)).route (fun forward n e he => ?_) hroute
  obtain ⟨i, hi, he⟩ | he := HierarchyView.mem_sideEdges he
  · rw [hv.query] at hi
    obtain ⟨-, p, hp, hbase⟩ := hq.starts n i hi
    obtain ⟨p', hp', hbase', -⟩ := hv.piece i e he
    obtain rfl : p = p' := Option.some.inj (hp.symm.trans hp')
    exact ⟨.inr (.inl (Array.mem_of_getElem? he)), hbase'.trans hbase⟩
  · rw [hv.below] at he
    exact (listed_of_contract hcontract forward n e he).imp_left .inl

end RoadSplice
