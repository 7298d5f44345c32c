import GuardedStore.Proofs.AdmittedBatches
import Mathlib.Data.List.Induction

/-!
# UpdateOrder — which of several spellings counts

The members of an update are kept in the order in which their names first come, and a name that
comes again changes its value and keeps its place (`OrderedEntries.names_ofList`,
`OrderedEntries.get?_ofList`); members with distinct names are kept as they come
(`OrderedEntries.toList_ofList`).  So if a key is spelled in several ways, the spelling that came up
last counts, with the last value under it (`User.update_of_parse`).  That is the value of the last
member that spells the key unless the name of that member was there before another spelling: then an
earlier member wins (`User.exists_superseded`).
-/

namespace GuardedStore

variable {l listed : List (String × String)} {name raw q v : String}

/-! ## Last entries -/

namespace SortedMap

variable {α β : Type} [DecidableEq α]

/-- The last value of a key is that of the last entry with it. -/
theorem lastValue?_eq_getLast? (k : α) (l : List (α × β)) :
    lastValue? k l = ((l.filter (fun e => e.1 = k)).getLast?).map (·.2) := by
  induction l with
  | nil => rfl
  | cons e rest ih =>
      obtain ⟨k', v⟩ := e
      rw [lastValue?, ih]
      by_cases hk : k' = k
      · rw [List.filter_cons_of_pos (by simpa using hk), List.getLast?_cons]
        cases (rest.filter (fun e => e.1 = k)).getLast? <;> simp [hk]
      · rw [List.filter_cons_of_neg (by simpa using hk)]
        cases (rest.filter (fun e => e.1 = k)).getLast? <;> simp [Ne.symm hk]

end SortedMap

/-- The last entry of a selection is the last one of each smaller selection that it belongs to. -/
theorem getLast?_filter_of_imp {α : Type} {p p' : α → Bool} {l : List α} {a : α}
    (himp : ∀ b, p' b = true → p b = true) (hlast : (l.filter p).getLast? = some a)
    (ha : p' a = true) : (l.filter p').getLast? = some a := by
  have hsmaller : l.filter p' = (l.filter p).filter p' := by
    rw [List.filter_filter]
    refine List.filter_congr ?_
    intro b _
    cases hb : p' b with
    | false => rfl
    | true => rw [himp b hb, Bool.and_self]
  rcases List.getLast?_eq_some_iff.1 hlast with ⟨front, hfront⟩
  rw [hsmaller, hfront, List.filter_append, List.filter_cons_of_pos ha]
  simp

/-! ## Entries that are put one after the other -/

namespace OrderedEntries

theorem ofList_concat (l : List (String × String)) (p : String × String) :
    ofList (l ++ [p]) = (ofList l).put p.1 p.2 := by
  rw [ofList, List.foldl_append]
  rfl

/-- Names stand in the order in which they first come. -/
theorem names_ofList (l : List (String × String)) : (ofList l).names = (l.map (·.1)).eraseDups := by
  induction l using List.reverseRecOn with
  | nil => rfl
  | append_singleton l p ih =>
      rw [ofList_concat, names_put, List.map_append, List.eraseDups_append, ih]
      by_cases hmem : p.1 ∈ l.map (·.1)
      · have hnone : (List.map (·.1) [p]).removeAll (l.map (·.1)) = [] := by
          simpa [List.removeAll] using hmem
        rw [if_pos (List.mem_eraseDups.2 hmem), hnone]
        simp
      · have hnew : (List.map (·.1) [p]).removeAll (l.map (·.1)) = [p.1] := by
          simpa [List.removeAll] using hmem
        rw [if_neg (mt List.mem_eraseDups.1 hmem), hnew]
        rfl

/-- Under each name is its last value. -/
theorem get?_ofList (l : List (String × String)) (q : String) :
    (ofList l).get? q = SortedMap.lastValue? q l := by
  induction l using List.reverseRecOn with
  | nil => rfl
  | append_singleton l p ih =>
      rw [ofList_concat, get?_put, ih, SortedMap.lastValue?_eq_getLast?,
        SortedMap.lastValue?_eq_getLast?, List.filter_append]
      by_cases hq : q = p.1
      · simp [hq]
      · simp [hq, Ne.symm hq]

theorem get?_of_mem {e : OrderedEntries} (h : (name, v) ∈ e.toList) : e.get? name = some v := by
  have hnodup := e.nodup
  unfold get?
  generalize e.toList = entries at h hnodup
  induction entries with
  | nil => cases h
  | cons first rest ih =>
      rw [List.map_cons, List.nodup_cons] at hnodup
      rcases List.mem_cons.1 h with rfl | hmem
      · simp
      · -- the name is among the later ones, so it is not that of the first entry
        have hother : first.1 ≠ name := by
          rintro rfl
          exact hnodup.1 (List.mem_map.2 ⟨_, hmem, rfl⟩)
        rw [List.find?_cons_of_neg (by simpa using hother)]
        exact ih hmem hnodup.2

theorem placed_of_not_mem (h : name ∉ l.map (·.1)) : placed name v l = l ++ [(name, v)] := by
  induction l with
  | nil => rfl
  | cons p rest ih =>
      rw [List.map_cons, List.mem_cons, not_or] at h
      rw [placed, if_neg (Ne.symm h.1), ih h.2, List.cons_append]

theorem ext_toList {e e' : OrderedEntries} (h : e.toList = e'.toList) : e = e' := by
  cases e
  cases e'
  cases h
  rfl

/-- Entries with distinct names are kept as they are. -/
theorem toList_ofList (h : (l.map (·.1)).Nodup) : (ofList l).toList = l := by
  induction l using List.reverseRecOn with
  | nil => rfl
  | append_singleton l p ih =>
      obtain ⟨name, v⟩ := p
      rw [List.map_append, List.map_singleton] at h
      obtain ⟨hfront, -, hnew⟩ := List.nodup_append.1 h
      have hmem : name ∉ l.map (·.1) := by
        intro hmem
        exact hnew name hmem name (List.mem_singleton_self name) rfl
      calc (ofList (l ++ [(name, v)])).toList
          = placed name v (ofList l).toList := by
            rw [ofList_concat]
            rfl
        _ = placed name v l := by rw [ih hfront]
        _ = l ++ [(name, v)] := placed_of_not_mem hmem

/-- The entries, put one after the other, make the same entries again. -/
theorem ofList_toList (e : OrderedEntries) : ofList e.toList = e := by
  have hlist : (ofList e.toList).toList = e.toList := toList_ofList e.nodup
  exact ext_toList hlist

end OrderedEntries

/-! ## Spellings -/

namespace Key

/-- Whether a text spells a key. -/
def Spells (raw q : String) : Prop := normal? raw = some q

instance (raw q : String) : Decidable (Spells raw q) :=
  inferInstanceAs (Decidable (_ = _))

/-- The ways in which the members spell a key, in the order in which they first come. -/
def spellings (q : String) (listed : List (String × String)) : List String :=
  (listed.map (·.1)).eraseDups.filter (fun raw => Spells raw q)

/-- The members that spell a key. -/
def spelled (q : String) (listed : List (String × String)) : List (String × String) :=
  listed.filter (fun e => Spells e.1 q)

theorem normalAll_cons_of_some (h : normal? raw = some q) (v : String)
    (rest : List (String × String)) : normalAll ((raw, v) :: rest) = (q, v) :: normalAll rest :=
  List.filterMap_cons_some (by rw [h]; rfl)

theorem normalAll_cons_of_none (h : normal? raw = none) (v : String)
    (rest : List (String × String)) : normalAll ((raw, v) :: rest) = normalAll rest :=
  List.filterMap_cons_none (by rw [h]; rfl)

theorem filter_normalAll (q : String) (l : List (String × String)) :
    (normalAll l).filter (fun e => e.1 = q) = (spelled q l).map (fun e => (q, e.2)) := by
  induction l with
  | nil => rfl
  | cons e rest ih =>
      obtain ⟨raw, v⟩ := e
      unfold spelled at ih ⊢
      cases hnormal : normal? raw with
      | none =>
          have hnot : ¬ Spells raw q := by simp [Spells, hnormal]
          rw [normalAll_cons_of_none hnormal, List.filter_cons_of_neg (by simpa using hnot), ih]
      | some q' =>
          rw [normalAll_cons_of_some hnormal]
          by_cases hq : q' = q
          · have hspells : Spells raw q := by rw [Spells, hnormal, hq]
            rw [List.filter_cons_of_pos (by simpa using hq),
              List.filter_cons_of_pos (by simpa using hspells), List.map_cons, ih, hq]
          · have hnot : ¬ Spells raw q := by simpa [Spells, hnormal] using hq
            rw [List.filter_cons_of_neg (by simpa using hq),
              List.filter_cons_of_neg (by simpa using hnot), ih]

/-- The last value under a canonical spelling is that of the last member that spells the key. -/
theorem lastValue?_normalAll (q : String) (l : List (String × String)) :
    SortedMap.lastValue? q (normalAll l) = (spelled q l).getLast?.map (·.2) := by
  rw [SortedMap.lastValue?_eq_getLast?, filter_normalAll, List.getLast?_map, Option.map_map]
  rfl

/-- Of the members as they are kept the one that counts has the newest spelling of its key, and the
last value under it. -/
theorem getLast?_spelled_ofList (q : String) (listed : List (String × String)) :
    (spelled q (OrderedEntries.ofList listed).toList).getLast?.map (·.2) =
      (spellings q listed).getLast?.bind (fun raw => SortedMap.lastValue? raw listed) := by
  have hnames : (spelled q (OrderedEntries.ofList listed).toList).map (·.1) =
      spellings q listed := by
    rw [spellings, ← OrderedEntries.names_ofList, OrderedEntries.names, List.filter_map]
    rfl
  rw [← hnames, List.getLast?_map]
  cases hlast : (spelled q (OrderedEntries.ofList listed).toList).getLast? with
  | none => rfl
  | some e =>
      obtain ⟨raw, v⟩ := e
      have hmem : (raw, v) ∈ (OrderedEntries.ofList listed).toList :=
        List.mem_of_mem_filter (List.mem_of_getLast? hlast)
      have hvalue := OrderedEntries.get?_of_mem hmem
      rw [OrderedEntries.get?_ofList] at hvalue
      exact hvalue.symm

/-- If the last member that spells a key has its newest spelling, its value is the last one under
it. -/
theorem lastValue?_of_getLast?_spelled
    (hnewest : (spellings q listed).getLast? = (spelled q listed).getLast?.map (·.1)) :
    (spellings q listed).getLast?.bind (fun raw => SortedMap.lastValue? raw listed) =
      (spelled q listed).getLast?.map (·.2) := by
  rw [hnewest]
  cases hlast : (spelled q listed).getLast? with
  | none => rfl
  | some e =>
      obtain ⟨raw, v⟩ := e
      have hspells : Spells raw q := by
        simpa [spelled] using List.of_mem_filter (List.mem_of_getLast? hlast)
      -- all members with this name spell the key
      have hnamed : (listed.filter (fun e => e.1 = raw)).getLast? = some (raw, v) := by
        refine getLast?_filter_of_imp ?_ hlast (by simp)
        intro e he
        rw [of_decide_eq_true he]
        exact decide_eq_true hspells
      rw [Option.map_some, Option.bind_some, SortedMap.lastValue?_eq_getLast?, hnamed]

end Key

/-! ## Requests in objects -/

theorem Json.required_eq_some_iff {α : Type} {read : Json → Option α} {found : Option Json}
    {a : α} :
    required read found = some a ↔ ∃ w, found = some w ∧ read w = some a := by
  cases found with
  | none => simp [required]
  | some w => simp [required]

namespace Wire

variable {r : Request} {members : List (List UInt8 × Json)} {rest bytes : List UInt8} {w : Json}

theorem Message.ofJson?_request (h : Message.ofJson? w = some (.request r)) :
    Request.ofJson? w = some r := by
  unfold Message.ofJson? at h
  cases hrequest : Request.ofJson? w with
  | some r' =>
      rw [hrequest] at h
      cases h
      rfl
  | none =>
      -- no other shape is a request
      rw [hrequest] at h
      cases hresult : Result.ofJson? w <;> cases herrors : ErrorReports.ofJson? w <;>
        cases herror : ErrorReport.ofJson? w <;> simp [hresult, herrors, herror] at h

/-- What is parsed is the message that the value at the front of the bytes writes. -/
theorem Message.ofJson?_eq_of_parse {m : Message} (hread : Json.readValue bytes = some (w, rest))
    (hparse : Message.parse bytes = .ok m) : Message.ofJson? w = some m := by
  unfold Message.parse at hparse
  rw [hread] at hparse
  simp only at hparse
  split at hparse
  · cases hparse
  · split at hparse
    · cases hparse
    · next m' hshape =>
      split at hparse
      · cases hparse
        exact hshape
      · cases hparse

theorem Message.ofJson?_of_parse (hread : Json.readValue bytes = some (w, rest))
    (hparse : Message.parse bytes = .ok (.request r)) : Request.ofJson? w = some r :=
  ofJson?_request (ofJson?_eq_of_parse hread hparse)

/-- The members of an update are those of the member of that name, one after the other. -/
theorem Request.update_of_ofJson? (h : Request.ofJson? (.object members) = some r) :
    ∃ named update listed, Json.namedMembers? members = some named ∧
      Json.member? "update" named = some update ∧ Json.textMembers? update = some listed ∧
        r.update = .ofList listed := by
  unfold Request.ofJson? Json.RecordForm.read? at h
  simp only at h
  cases hnamed : Json.namedMembers? members with
  | none => simp [hnamed] at h
  | some named =>
      simp only [hnamed] at h
      split at h
      · rename_i hread
        split at hread
        · cases hread
          simp only [Option.bind_eq_bind, Option.bind_eq_some_iff, Option.pure_def] at h
          rcases h with ⟨read, hread, update, hupdate, delete, hdelete, hr⟩
          rcases Json.required_eq_some_iff.1 hupdate with ⟨value, hmember, hlisted⟩
          cases hr
          exact ⟨named, value, update, rfl, hmember, hlisted, rfl⟩
        · cases hread
      · cases h

end Wire

namespace User

open Key

variable {u : User} {r : Wire.Request} {b : Batch} {members : List (List UInt8 × Json)}
  {rest bytes : List UInt8}

/-- A key of an admitted request gets the value of the last member, as they are kept, that spells
it. -/
theorem get?_update_of_batchOf (h : u.batchOf r = .ok b) (k : Key) :
    b.update.get? k = (spelled k.text r.update.toList).getLast?.map (·.2) := by
  calc
    b.update.get? k = SortedMap.lastValue? k b.update.toList :=
      (SortedMap.lastValue?_toList b.update k).symm
    _ = SortedMap.lastValue? k.text b.updates :=
      (SortedMap.lastValue?_map Key.text_injective k b.update.toList).symm
    _ = SortedMap.lastValue? k.text (normalAll r.update.toList) :=
      lastValue?_updates_of_batchOf h k.text
    _ = (spelled k.text r.update.toList).getLast?.map (·.2) :=
      lastValue?_normalAll k.text r.update.toList

/-- A request that is written as an object is admitted if all its texts are permitted, and each key
gets the last value under the spelling that came up last.  If the last member that spells the key
has that spelling, this is its value. -/
theorem update_of_parse (hread : Json.readValue bytes = some (.object members, rest))
    (hparse : Wire.Message.parse bytes = .ok (.request r))
    (hpermits : ∀ p ∈ r.named, u.Permits p.1 p.2) :
    ∃ named update listed b, Json.namedMembers? members = some named ∧
      Json.member? "update" named = some update ∧ Json.textMembers? update = some listed ∧
      u.batchOf r = .ok b ∧
      ∀ k : Key,
        b.update.get? k =
            (spellings k.text listed).getLast?.bind (fun raw => SortedMap.lastValue? raw listed) ∧
          ((spellings k.text listed).getLast? = (spelled k.text listed).getLast?.map (·.1) →
            b.update.get? k = (spelled k.text listed).getLast?.map (·.2)) := by
  rcases Wire.Request.update_of_ofJson? (Wire.Message.ofJson?_of_parse hread hparse) with
    ⟨named, update, listed, hnamed, hmember, hlisted, hupdate⟩
  have hbatch : u.batchOf r = .ok (u.admitted r) := batchOf_eq_ok_iff.2 ⟨hpermits, rfl⟩
  refine ⟨named, update, listed, _, hnamed, hmember, hlisted, hbatch, ?_⟩
  intro k
  have hvalue : (u.admitted r).update.get? k =
      (spellings k.text listed).getLast?.bind (fun raw => SortedMap.lastValue? raw listed) := by
    rw [get?_update_of_batchOf hbatch, hupdate, getLast?_spelled_ofList]
  refine ⟨hvalue, ?_⟩
  intro hnewest
  rw [hvalue, lastValue?_of_getLast?_spelled hnewest]

/-! ## Three members for one key -/

/-- Somebody who may read all keys, and so update them. -/
def reader : User :=
  ⟨"u", .hashed .standard "p" [], .singleton "r" ⟨"r", [⟨.read, ⟨"/", true⟩⟩]⟩⟩

/-- A request with three updates of one key. -/
def threeUpdates (first second third : String) : List UInt8 :=
  Json.textBytes ("\x7b\"read\":[],\"update\":\x7b\"" ++ first ++ "\":\"1\",\"" ++ second ++
    "\":\"2\",\"" ++ third ++ "\":\"3\"\x7d,\"delete\":[]\x7d")

def wantedKey : Key := ⟨"/k", by decide, by decide, by decide⟩

/-- The members of such a request. -/
def threeMembers (first second third : String) : List (List UInt8 × Json) :=
  [(Json.textBytes "read", .array []),
    (Json.textBytes "update",
      Wire.textObject [(first, "1"), (second, "2"), (third, "3")]),
    (Json.textBytes "delete", .array [])]

/-- Three spellings of one key: the last one counts. -/
theorem update_of_parse_three :
    ∃ r b, Wire.Message.parse (threeUpdates "/k" "//k" "/k/") = .ok (.request r) ∧
      reader.batchOf r = .ok b ∧ b.update.get? wantedKey = some "3" := by
  have hread : Json.readValue (threeUpdates "/k" "//k" "/k/") =
      some (.object (threeMembers "/k" "//k" "/k/"), []) := rfl
  have hparse : Wire.Message.parse (threeUpdates "/k" "//k" "/k/") = .ok (.request
      ⟨.empty, .ofList [("/k", "1"), ("//k", "2"), ("/k/", "3")], .empty⟩) := rfl
  have hpermits : ∀ p ∈ Wire.Request.named
      ⟨.empty, .ofList [("/k", "1"), ("//k", "2"), ("/k/", "3")], .empty⟩,
      reader.Permits p.1 p.2 := by
    have hnamed : Wire.Request.named
        ⟨.empty, .ofList [("/k", "1"), ("//k", "2"), ("/k/", "3")], .empty⟩ =
        [(.read, "/k"), (.read, "//k"), (.read, "/k/")] := rfl
    simp only [hnamed, List.forall_mem_cons]
    exact ⟨⟨wantedKey, rfl, rfl⟩, ⟨wantedKey, rfl, rfl⟩, ⟨wantedKey, rfl, rfl⟩, nofun⟩
  rcases update_of_parse hread hparse hpermits with
    ⟨named, update, listed, b, hnamed, hmember, hlisted, hbatch, hvalues⟩
  cases hnamed
  cases hmember
  cases hlisted
  exact ⟨_, b, hparse, hbatch, ((hvalues wantedKey).2 rfl).trans rfl⟩

/-- The first spelling comes again behind another one: the other one counts, and not the last
member. -/
theorem exists_superseded :
    ∃ members named update listed r b,
      Json.readValue (threeUpdates "/k" "//k" "/k") = some (.object members, []) ∧
      Wire.Message.parse (threeUpdates "/k" "//k" "/k") = .ok (.request r) ∧
      Json.namedMembers? members = some named ∧ Json.member? "update" named = some update ∧
      Json.textMembers? update = some listed ∧ reader.batchOf r = .ok b ∧
      b.update.get? wantedKey = some "2" ∧
      (spelled wantedKey.text listed).getLast?.map (·.2) = some "3" :=
  ⟨threeMembers "/k" "//k" "/k", _, _, [("/k", "1"), ("//k", "2"), ("/k", "3")],
    ⟨.empty, .ofList [("/k", "1"), ("//k", "2"), ("/k", "3")], .empty⟩, _, rfl, rfl, rfl, rfl, rfl,
    rfl, rfl, rfl⟩

end User
end GuardedStore
