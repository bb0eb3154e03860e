import FlowGraph.Model.Counting
import FlowGraph.Proofs.Reachable

/-! The order in which nodes were inserted. It is the order of every model that is built node by
node, by a program or by a visitor, whatever the visitor does. -/
namespace FlowGraph

namespace Model

theorem index_insert (m : Model) (n : Node) :
    (m.insert n).index = Function.update m.index n.id (some m.size) := by
  rw [index, ids_insert, List.zipIdx_append, List.foldl_append, length_ids, Nat.zero_add]
  rfl

/-- Every id has its position, and nothing else has one. -/
theorem index_eq_some {m : Model} (hd : m.ids.Nodup) {id : NodeId} {k : Nat} :
    m.index id = some k ↔ m.ids[k]? = some id := by
  obtain ⟨nodes⟩ := m
  induction nodes using List.reverseRecOn with
  | nil => simp [index, ids]
  | append_singleton nodes n ih =>
    have hinsert : (⟨nodes ++ [n]⟩ : Model) = insert ⟨nodes⟩ n := rfl
    rw [hinsert, nodup_insert] at hd
    rw [hinsert, index_insert, ids_insert]
    by_cases hid : id = n.id
    · subst hid
      rw [Function.update_self, Option.some.injEq, ← length_ids]
      constructor
      · rintro rfl
        exact List.getElem?_concat_length
      · intro hk
        -- the id is new, so that it can be at the end only
        rcases Nat.lt_or_ge k (ids ⟨nodes⟩).length with hlt | hge
        · rw [List.getElem?_append_left hlt] at hk
          exact absurd (List.mem_of_getElem? hk) hd.2
        · have hlast := (List.getElem?_eq_some_iff.mp hk).1
          rw [List.length_append, List.length_singleton] at hlast
          omega
    · -- the end belongs to the new id, and nothing is past it
      rw [Function.update_of_ne hid, ih hd.1]
      rcases Nat.lt_trichotomy k (ids ⟨nodes⟩).length with hlt | rfl | hgt
      · rw [List.getElem?_append_left hlt]
      · rw [List.getElem?_concat_length, List.getElem?_eq_none (Nat.le_refl _)]
        simpa using Ne.symm hid
      · rw [List.getElem?_eq_none hgt.le, List.getElem?_eq_none]
        rw [List.length_append, List.length_singleton]
        omega

theorem node?_eq_index {m : Model} (hd : m.ids.Nodup) (id : NodeId) :
    m.node? id = (m.index id).bind fun k => m.nodes[k]? := by
  by_cases hid : id ∈ m.ids
  · obtain ⟨n, hn, rfl⟩ := mem_ids.mp hid
    obtain ⟨k, hk⟩ := List.mem_iff_getElem?.mp hn
    -- its position is that of its id
    have hposition : m.index n.id = some k := by
      rw [index_eq_some hd, ids, List.getElem?_map, hk, Option.map_some]
    rw [node?_of_mem hd hn, hposition, Option.bind_some, hk]
  · have hnode : m.node? id = none := by simpa [contains] using contains_eq_false.mpr hid
    have hposition : m.index id = none := by
      by_contra hsome
      obtain ⟨k, hk⟩ := Option.ne_none_iff_exists'.mp hsome
      exact hid (List.mem_of_getElem? ((index_eq_some hd).mp hk))
    rw [hnode, hposition, Option.bind_none]

/-- In insertion order every node comes after all that it reads. -/
theorem follows_of_order {m : Model} (hd : m.ids.Nodup) (ho : m.order = .ok m.ids) :
    Follows [] m.nodes := by
  obtain ⟨-, listed, hids, hperm, hfollows⟩ := order_ok ho
  -- the same ids in the same places are the same nodes, as ids are different
  have hsame : m.nodes = listed := by
    refine List.ext_getElem hperm.length_eq.symm fun i hi hi' => ?_
    have hlisted := hperm.mem_iff.mp (List.getElem_mem hi')
    apply List.inj_on_of_nodup_map hd (List.getElem_mem hi) hlisted
    have hget : m.ids[i]? = (listed.map Node.id)[i]? := by rw [hids]
    simpa [ids, hi, hi'] using hget
  rwa [hsame]

/-- One step: a node that is added reads only what was there before it. -/
theorem order_add {m m' : Model} {n : Node} (ho : m.order = .ok m.ids) (h : m.add n = .ok m') :
    m'.order = .ok m'.ids := by
  obtain ⟨-, hreads, rfl⟩ := add_ok.mp h
  rw [ids_insert]
  refine order_insert ho fun d hd => ?_
  obtain ⟨s, hs, rfl⟩ := Node.mem_dependencies.mp hd
  exact resolves_mem (hreads s hs)

end Model

/-- The model that is being built, if there is one, has the property. -/
def Workspace.Builds (P : Model → Prop) (w : Workspace) : Prop :=
  ∀ c, w.transformer.context = some c → P c.destination

theorem Workspace.Builds.update {P : Model → Prop} {α : Type} {w : Workspace}
    {result : Except GraphError Transformer} {answer : α} (h : w.Builds P)
    (ht : ∀ t, result = .ok t → Builds P { w with transformer := t }) :
    (w.update result answer).2.Builds P := by
  cases hresult : result with
  | error e => exact h
  | ok t => exact ht t hresult

section Building

variable {P : Model → Prop} (hempty : P .empty)
  (hadd : ∀ m n m', P m → m.add n = .ok m' → P m')

include hempty hadd

/-- One request: there is no other way to change the model than to add a node to it. -/
theorem Workspace.Builds.respond {w : Workspace} (h : w.Builds P) (r : Request) :
    (w.respond r).2.Builds P := by
  rcases w with ⟨supply, ⟨context⟩⟩
  cases r with
  | draw => exact h
  | add n =>
    refine h.update fun t ht c' hc' => ?_
    cases context with
    | none => cases ht
    | some c =>
      obtain ⟨m, hm, rfl⟩ := Transformer.add_ok.mp ht
      obtain rfl := Option.some.inj hc'
      exact hadd _ _ _ (h c rfl) hm
  | map old e =>
    refine h.update fun t ht c' hc' => ?_
    cases context with
    | none =>
      simp only [Transformer.map] at ht
      split at ht <;> cases ht
    | some c =>
      obtain ⟨-, -, rfl⟩ := Transformer.map_ok.mp ht
      obtain rfl := Option.some.inj hc'
      exact h c rfl
  | corresponding address => exact h
  | relocate e => exact h
  | destination => exact h
  | isTransforming => exact h
  | restart =>
    intro c' hc'
    cases context with
    | none =>
      obtain rfl := Option.some.inj hc'
      exact hempty
    | some c => exact h c' hc'

/-- The run of a script, by induction on its requests. -/
theorem Workspace.Builds.run {α : Type} {w : Workspace} (h : w.Builds P) (p : Script α) :
    (p.run w).2.Builds P := by
  induction p generalizing w with
  | done a => exact h
  | ask r next ih => exact ih _ (h.respond hempty hadd r)

/-- All visits, by induction on the nodes that are still to be visited. -/
theorem Workspace.Builds.visits {visitor : Node → Visit Unit} {source : Model} {ids : List NodeId}
    {w w' : Workspace} (h : w.Builds P) (hrun : Visits visitor source ids w w') :
    w'.Builds P := by
  induction ids generalizing w with
  | nil =>
    obtain rfl : w' = w := hrun
    exact h
  | cons id rest ih =>
    obtain ⟨n, w₁, t, -, hperform, hvisit, hrest⟩ := hrun
    have hvisited : w₁.Builds P := by
      have hscript := h.run hempty hadd (visitor n).run
      rwa [show Script.run (visitor n).run w = (.ok (), w₁) from hperform] at hscript
    refine ih (fun c' hc' => ?_) hrest
    -- marking a node as visited leaves the model alone
    simp only [Transformer.visit, bind_ok, pure_ok] at hvisit
    obtain ⟨c, hc, rfl⟩ := hvisit
    obtain rfl := Option.some.inj hc'
    cases hcontext : w₁.transformer.context with
    | none => simp [Transformer.running, hcontext] at hc
    | some c₁ =>
      simp only [Transformer.running, hcontext, Option.elim, Except.ok.injEq] at hc
      exact hc ▸ hvisited c₁ hcontext

/-- What holds of the empty model, and still holds when a node is added, holds of every model that a
visitor builds. -/
theorem Model.rebuild_keeps {source m : Model} {visitor : Node → Visit Unit} {s s' : Supply}
    (h : (source.rebuild visitor).runWith s = (.ok m, s')) : P m := by
  obtain ⟨ids, w, -, hvisits, hm, -, -⟩ := rebuild_ok.mp h
  have hstart : Workspace.Builds P ⟨s, ⟨some {}⟩⟩ := by
    intro c hc
    obtain rfl := Option.some.inj hc
    exact hempty
  have hbuilt := hstart.visits hempty hadd hvisits
  cases hcontext : w.transformer.context with
  | none => simp [Transformer.destination, Transformer.running, hcontext, bind, Except.bind] at hm
  | some c =>
    simp only [Transformer.destination, Transformer.running, hcontext, Option.elim, bind_ok,
      pure_ok, Except.ok.injEq, exists_eq_left'] at hm
    exact hm ▸ hbuilt c hcontext

end Building

theorem Model.rebuild_order {source m : Model} {visitor : Node → Visit Unit} {s s' : Supply}
    (h : (source.rebuild visitor).runWith s = (.ok m, s')) : m.order = .ok m.ids :=
  rebuild_keeps (P := fun m => m.order = .ok m.ids) rfl (fun _ _ _ => order_add) h

/-- A pass gives a model in insertion order, whatever the order of its source was. -/
theorem Pass.run_order {p : Pass} {m m' : Model} {s s' : Supply}
    (h : (p.run m).runWith s = (.ok m', s')) : m'.order = .ok m'.ids := by
  cases p with
  | identity => exact Model.rebuild_order h
  | foldConstants => exact Model.rebuild_order h
  | prune =>
    obtain ⟨live, s₁, -, hrebuild⟩ := Drawing.runWith_bind_ok.mp h
    exact Model.rebuild_order hrebuild

end FlowGraph
