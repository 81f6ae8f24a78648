import Mathlib.Data.List.Nodup
import HdlDesk.Proofs.Json.Records
import HdlDesk.Storage.StateFile

/-!
# Entries read back

The object that entries are written as lists them in order of their keys. Reading inserts them one
by one, and since each key is above those before it, every pair is placed at the end. In any other
order the same map comes out, since no key occurs twice.
-/
namespace HdlDesk

namespace SortedMap

variable {α : Type}

theorem place_eq_append {key : String} {value : α} {pairs : List (String × α)}
    (below : ∀ pair ∈ pairs, pair.1 < key) : place key value pairs = pairs ++ [(key, value)] := by
  induction pairs with
  | nil => rfl
  | cons pair pairs ih =>
    obtain ⟨name, held⟩ := pair
    have less : name < key := below _ List.mem_cons_self
    have notLess : ¬key < name := fun greater => String.lt_irrefl _ (String.lt_trans less greater)
    have different : name ≠ key := by
      rintro rfl
      exact String.lt_irrefl _ less
    rw [place, if_neg notLess, if_neg different,
      ih fun other member => below other (List.mem_cons_of_mem _ member), List.cons_append]

private theorem pairs_foldl_insert (rest : List (String × α)) (front : SortedMap α)
    (increasing : (front.pairs ++ rest).Pairwise fun a b => a.1 < b.1) :
    (rest.foldl (fun map pair => map.insert pair.1 pair.2) front).pairs = front.pairs ++ rest := by
  induction rest generalizing front with
  | nil => simp
  | cons pair rest ih =>
    have below : ∀ other ∈ front.pairs, other.1 < pair.1 := fun other member =>
      (List.pairwise_append.mp increasing).2.2 other member pair List.mem_cons_self
    have placed : (front.insert pair.1 pair.2).pairs = front.pairs ++ [pair] :=
      place_eq_append below
    have rejoined : front.pairs ++ pair :: rest = (front.insert pair.1 pair.2).pairs ++ rest := by
      rw [placed, List.append_assoc, List.singleton_append]
    rw [List.foldl_cons, ih _ (rejoined ▸ increasing), rejoined]

/-- Inserting the pairs of a map in their order makes the map. -/
theorem ofList_pairs (map : SortedMap α) : ofList map.pairs = map := by
  have same : (ofList map.pairs).pairs = map.pairs :=
    pairs_foldl_insert map.pairs empty map.increasing
  refine ext_get? fun key => ?_
  rw [get?, same, get?]

/-- Pairs with different keys make one map in whatever order they are inserted. -/
theorem ofList_perm {pairs others : List (String × α)} (order : pairs.Perm others)
    (distinct : (pairs.map Prod.fst).Nodup) : ofList pairs = ofList others := by
  refine order.foldl_eq' (fun first member second other map => ?_) empty
  by_cases same : first.1 = second.1
  · obtain rfl := List.inj_on_of_nodup_map distinct member other same
    rfl
  · exact insert_comm map same _ _

theorem nodup_keys (map : SortedMap α) : (map.pairs.map Prod.fst).Nodup := by
  refine List.pairwise_map.mpr (map.increasing.imp fun {left right} less same => ?_)
  exact String.lt_irrefl _ (same ▸ less)

end SortedMap

theorem namedMembers?_named (members : List (String × Json)) :
    Json.namedMembers? (members.map fun member => (some member.1, member.2)) = some members := by
  induction members with
  | nil => rfl
  | cons member members ih =>
    unfold Json.namedMembers? at ih ⊢
    rw [List.map_cons, List.mapM_cons, ih]
    rfl

private theorem mapM_asText? (pairs : List (String × String)) :
    ((pairs.map fun pair => (pair.1, Json.text pair.2)).mapM fun member =>
      member.2.asText?.map fun text => (member.1, text)) = some pairs := by
  induction pairs with
  | nil => rfl
  | cons pair pairs ih =>
    rw [List.map_cons, List.mapM_cons, ih]
    rfl

/-- An object of texts is read by inserting its members in turn. -/
theorem ofJson?_pairs (pairs : List (String × String)) :
    Stored.ofJson? (.object (pairs.map fun pair => (some pair.1, .text pair.2))) =
      some (SortedMap.ofList pairs : Entries) := by
  have named := namedMembers?_named (pairs.map fun pair => (pair.1, Json.text pair.2))
  rw [List.map_map] at named
  show ((Json.namedMembers? (pairs.map fun pair => (some pair.1, Json.text pair.2))).bind
    fun members => (members.mapM fun (member : String × Json) =>
      member.2.asText?.map fun text => (member.1, text)).bind fun read =>
        some (SortedMap.ofList read)) = some (SortedMap.ofList pairs)
  have members : Json.namedMembers? (pairs.map fun pair => (some pair.1, Json.text pair.2)) =
      some (pairs.map fun pair => (pair.1, Json.text pair.2)) := named
  rw [members, Option.bind_some, mapM_asText?, Option.bind_some]

theorem plain_pairs (pairs : List (String × String)) :
    (Json.object (pairs.map fun pair => (some pair.1, .text pair.2))).Plain := by
  refine .object (fun member inside => ?_) fun member inside => ?_
  · obtain ⟨pair, _, rfl⟩ := List.mem_map.mp inside
    exact Option.some_ne_none _
  · obtain ⟨pair, _, rfl⟩ := List.mem_map.mp inside
    exact .text _

instance : LawfulStored Entries where
  plain entries := plain_pairs entries.pairs
  ofJson?_toJson entries :=
    (ofJson?_pairs entries.pairs).trans (congrArg some (SortedMap.ofList_pairs entries))

end HdlDesk
