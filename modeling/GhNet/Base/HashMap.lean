import Mathlib.Data.List.Dedup
import Mathlib.Data.List.Induction
import Mathlib.Data.List.Perm.Subperm
import GhNet.Infra.History
import GhNet.Infra.LinkedList
import GhNet.Infra.Run

/-!
# `HashMap`

The map of `yy_algorithm.h` from strings to nodes. The nodes come out of one array in order and are
never given back. Each node is on two lists: the chain of its bucket, through `hash_next`, and the
list of all nodes, through `next`; both are pushed at the front.

So the nodes in use, in the order of the array, decide the two lists: the second one has all of
them, the latest first, and a chain has those of its bucket in the same order.
-/

namespace GhNet.Base.HashMap

open GhNet

/-! ## Keys and their hash -/

/-- A string of `char`s in front of its NUL. -/
structure CStr where
  chars : List Int8
  noNul : 0 ∉ chars
  deriving DecidableEq

/-- The number of nodes, and of values that the hash can have. -/
def VAR_SIZE : Nat := 1024

variable (tolower : Int8 → Int8)

/-- The loop of `generateHashValue`, at index `i` -/
def hashLoop : Nat → Int32 → List Int8 → Int32
  | _, hash, [] => hash
  | i, hash, c :: fname =>
    hashLoop (i + 1) (hash + (tolower c).toInt32 * Int32.ofNat (i + 119)) fname

/-- `generateHashValue`; the `char`s are signed. -/
def generateHashValue (fname : CStr) : Int32 :=
  hashLoop tolower 0 0 fname.chars &&& Int32.ofNat (VAR_SIZE - 1)

/-! ## The map -/

/-- The fields of a node that the map itself uses; the callers use `value`. -/
structure CVar where
  key : CStr
  hash_next : Option Nat
  next : Option Nat

/-- `m_nodes` has `VAR_SIZE` nodes; a pointer to one is its index. -/
structure Map where
  m_table : Int32 → Option Nat
  m_nodes : Nat → CVar
  m_node_head : Option Nat
  m_node_index : Nat

namespace Map

/-- `new` does not initialise the nodes. -/
def new (nodes : Nat → CVar) : Map := ⟨fun _ => none, nodes, none, 0⟩

/-- The loop of `find`; `none` when the rounds run out. -/
def findLoop (m : Map) (key : CStr) : Nat → Option Nat → Option (Option Nat)
  | 0, _ => none
  | _ + 1, none => some none
  | fuel + 1, some kn =>
    if (m.m_nodes kn).key = key then some (some kn)
    else findLoop m key fuel (m.m_nodes kn).hash_next

/-- `find`; `none` where the list of the bucket does not end. -/
def find (m : Map) (key : CStr) : Option (Option Nat) :=
  m.findLoop key (VAR_SIZE + 1) (m.m_table (generateHashValue tolower key))

/-- The part of `get` behind the search: a new node with the key. -/
def add (m : Map) (key : CStr) : Map :=
  let hash := generateHashValue tolower key
  let kn_new := m.m_node_index
  { m_table := Function.update m.m_table hash (some kn_new)
    m_nodes := Function.update m.m_nodes kn_new ⟨key, m.m_table hash, m.m_node_head⟩
    m_node_head := some kn_new
    m_node_index := kn_new + 1 }

/-- `none` when an assertion fails. -/
def get (m : Map) (key : CStr) : Option (Map × Nat) :=
  if key.chars.length < 100 then
    match m.find tolower key with
    | none => none
    | some (some kn) => some (m, kn)
    | some none =>
      if m.m_node_index < VAR_SIZE then some (m.add tolower key, m.m_node_index) else none
  else none

/-- `isExist`, which leaves the map as it is. -/
def isExist (m : Map) (key : CStr) : Option (Map × Bool) :=
  (m.find tolower key).map fun kn => (m, kn.isSome)

end Map

/-! ## Runs -/

/-- What can be asked of a map. -/
inductive Call
  | get (key : CStr)
  | isExist (key : CStr)
  deriving DecidableEq

/-- What it answers. -/
inductive Answer
  | node (kn : Nat)
  | exist (b : Bool)
  deriving DecidableEq

/-- The map and the calls so far with their answers. -/
structure State where
  map : Map
  log : List (Call × Answer)

/-- One call, and the answer. -/
def step (s : State) : Call → Option State
  | .get key => (s.map.get tolower key).map fun r =>
    ⟨r.1, s.log ++ [(.get key, .node r.2)]⟩
  | .isExist key => (s.map.isExist tolower key).map fun r =>
    ⟨r.1, s.log ++ [(.isExist key, .exist r.2)]⟩

/-- The keys passed to `get`. -/
def getKeys : List Call → List CStr
  | [] => []
  | .get key :: calls => key :: getKeys calls
  | .isExist _ :: calls => getKeys calls

/-- Every key of a call is short enough. -/
def Call.Short : Call → Prop
  | get key | isExist key => key.chars.length < 100

instance : ∀ c : Call, Decidable c.Short
  | .get key | .isExist key => inferInstanceAs (Decidable (key.chars.length < 100))

/-- **The map of the calls**: what the answers are and how the nodes are linked. -/
structure IsMap (calls : List Call) (s : State) : Prop where
  answered : s.log.map Prod.fst = calls
  sameNode : ∀ k k' a b, (.get k, .node a) ∈ s.log → (.get k', .node b) ∈ s.log →
    (a = b ↔ k = k')
  exist : ∀ k b before after, s.log = before ++ (.isExist k, .exist b) :: after →
    (b = true ↔ Call.get k ∈ before.map Prod.fst)
  keeps : ∀ k s', step tolower s (.isExist k) = some s' → s'.map = s.map
  /-- Every node that has been given out is on the chain of its bucket. -/
  chain : ∀ k a, (.get k, .node a) ∈ s.log →
    ∃ l, Linked (fun i => (s.map.m_nodes i).hash_next)
      (s.map.m_table (generateHashValue tolower k)) l ∧ a ∈ l
  bucket : ∀ k, 0 ≤ (generateHashValue tolower k).toInt ∧
    (generateHashValue tolower k).toInt ≤ 1023
  /-- The list of all nodes has the distinct keys, the latest first. -/
  list : ∃ l, Linked (fun i => (s.map.m_nodes i).next) s.map.m_node_head l ∧
    l.map (fun i => (s.map.m_nodes i).key) = (getKeys calls).reverse.dedup

/-! ## The bucket -/

/-- **The hash value is the index of a bucket.** The sum of the letters may be negative, but what
the mask leaves is not. -/
theorem generateHashValue_range (fname : CStr) :
    0 ≤ (generateHashValue tolower fname).toInt ∧ (generateHashValue tolower fname).toInt ≤ 1023 := by
  rw [generateHashValue]
  generalize hashLoop tolower 0 0 fname.chars = hash
  have hle : (hash &&& Int32.ofNat (VAR_SIZE - 1)).toBitVec.toNat ≤ 1023 := by
    rw [Int32.toBitVec_and, BitVec.toNat_and]
    exact Nat.and_le_right
  rw [← Int32.toInt_toBitVec, BitVec.toInt_eq_toNat_of_lt (by omega)]
  omega

/-! ## The lists of the nodes -/

namespace Map

variable {tolower} {m : Map} {keys : List CStr} {key : CStr}

/-- The nodes in use, the latest first. -/
def used (m : Map) : List Nat := (List.range m.m_node_index).reverse

/-- The key of an entry. -/
def keyOf (m : Map) (i : Nat) : CStr := (m.m_nodes i).key

/-- The map after `get` has been called with the keys. -/
structure Inv (tolower : Int8 → Int8) (m : Map) (keys : List CStr) : Prop where
  keys : m.used.map m.keyOf = keys.reverse.dedup
  chain : ∀ b, Linked (fun i => (m.m_nodes i).hash_next) (m.m_table b)
    (m.used.filter fun i => generateHashValue tolower (m.keyOf i) = b)
  list : Linked (fun i => (m.m_nodes i).next) m.m_node_head m.used
  room : m.m_node_index ≤ VAR_SIZE

theorem mem_used {i : Nat} : i ∈ m.used ↔ i < m.m_node_index := by
  simp [used]

theorem length_used : m.used.length = m.m_node_index := by
  simp [used]

theorem Inv.count (h : Inv tolower m keys) : m.m_node_index = keys.dedup.length := by
  have hlen := congrArg List.length h.keys
  rw [List.length_map, length_used] at hlen
  rw [hlen]
  exact (List.Perm.dedup (List.reverse_perm keys)).length_eq

/-- Different nodes in use have different keys. -/
theorem Inv.keyOf_inj (h : Inv tolower m keys) {i j : Nat} (hi : i ∈ m.used) (hj : j ∈ m.used)
    (heq : m.keyOf i = m.keyOf j) : i = j :=
  List.inj_on_of_nodup_map (h.keys ▸ List.nodup_dedup _) hi hj heq

theorem Inv.mem_keys (h : Inv tolower m keys) : key ∈ keys ↔ ∃ i ∈ m.used, m.keyOf i = key := by
  rw [← List.mem_reverse, ← List.mem_dedup, ← h.keys, List.mem_map]

/-! ## Searching -/

theorem findLoop_spec {l : List Nat} {p : Option Nat} {fuel : Nat}
    (h : Linked (fun i => (m.m_nodes i).hash_next) p l) (hfuel : l.length < fuel) :
    m.findLoop key fuel p = some (l.find? fun i => m.keyOf i = key) := by
  induction l generalizing p fuel with
  | nil =>
    obtain ⟨fuel, rfl⟩ : ∃ n, fuel = n + 1 := ⟨fuel - 1, by omega⟩
    obtain rfl : p = none := h
    rfl
  | cons a l ih =>
    obtain ⟨rfl, hl⟩ := h
    rw [List.length_cons] at hfuel
    obtain ⟨fuel, rfl⟩ : ∃ n, fuel = n + 1 := ⟨fuel - 1, by omega⟩
    rw [findLoop, List.find?_cons]
    by_cases hkey : m.keyOf a = key
    · rw [decide_eq_true hkey]
      exact if_pos hkey
    · rw [decide_eq_false hkey]
      exact (if_neg hkey).trans (ih hl (by omega))

/-- `find` finds a node in use with the key, if there is one: a node with the key is on the chain
that is searched. -/
theorem Inv.find (h : Inv tolower m keys) (key : CStr) :
    m.find tolower key = some (m.used.find? fun i => m.keyOf i = key) := by
  have hlen : (m.used.filter fun i =>
      generateHashValue tolower (m.keyOf i) = generateHashValue tolower key).length <
        VAR_SIZE + 1 := by
    have hle := List.length_filter_le (fun i =>
      decide (generateHashValue tolower (m.keyOf i) = generateHashValue tolower key)) m.used
    rw [length_used] at hle
    have hroom := h.room
    omega
  rw [Map.find, findLoop_spec (h.chain _) hlen, List.find?_filter]
  congr 2
  funext i
  by_cases hkey : m.keyOf i = key
  · simp [hkey]
  · simp [hkey]

/-! ## A new node -/

theorem used_add : (m.add tolower key).used = m.m_node_index :: m.used := by
  rw [used, add, List.range_succ, List.reverse_append]
  rfl

theorem not_mem_used : m.m_node_index ∉ m.used := by
  rw [mem_used]
  exact Nat.lt_irrefl _

theorem keyOf_add_self : (m.add tolower key).keyOf m.m_node_index = key := by
  simp [keyOf, add]

theorem keyOf_add {i : Nat} (hi : i ∈ m.used) : (m.add tolower key).keyOf i = m.keyOf i := by
  have hne : i ≠ m.m_node_index := fun h => not_mem_used (h ▸ hi)
  simp [keyOf, add, hne]

/-- **A new node keeps the two lists in step with the array.** -/
theorem Inv.add (h : Inv tolower m keys) (hnew : key ∉ keys) (hroom : m.m_node_index < VAR_SIZE) :
    Inv tolower (m.add tolower key) (keys ++ [key]) := by
  have hmap : m.used.map (m.add tolower key).keyOf = m.used.map m.keyOf :=
    List.map_congr_left fun i hi => keyOf_add hi
  have hhash : (fun i => ((m.add tolower key).m_nodes i).hash_next) =
      Function.update (fun i => (m.m_nodes i).hash_next) m.m_node_index
        (m.m_table (generateHashValue tolower key)) := by
    funext i
    by_cases hi : i = m.m_node_index <;> simp [Map.add, hi]
  have hnext : (fun i => ((m.add tolower key).m_nodes i).next) =
      Function.update (fun i => (m.m_nodes i).next) m.m_node_index m.m_node_head := by
    funext i
    by_cases hi : i = m.m_node_index <;> simp [Map.add, hi]
  refine ⟨?_, fun b => ?_, ?_, hroom⟩
  · rw [used_add, List.map_cons, keyOf_add_self, hmap, h.keys, List.reverse_append,
      List.reverse_singleton, List.singleton_append, List.dedup_cons_of_notMem]
    rw [List.mem_reverse]
    exact hnew
  · have hfilter : (m.used.filter fun i =>
        generateHashValue tolower ((m.add tolower key).keyOf i) = b) =
        m.used.filter fun i => generateHashValue tolower (m.keyOf i) = b :=
      List.filter_congr fun i hi => by rw [keyOf_add hi]
    have hnot : m.m_node_index ∉ m.used.filter fun i =>
        generateHashValue tolower (m.keyOf i) = b :=
      fun hmem => not_mem_used (List.mem_of_mem_filter hmem)
    rw [used_add, List.filter_cons, keyOf_add_self, hfilter, hhash]
    by_cases hb : generateHashValue tolower key = b
    · subst hb
      have htable : (m.add tolower key).m_table (generateHashValue tolower key) =
          some m.m_node_index := by
        simp [Map.add]
      rw [htable, if_pos (by simp)]
      exact (h.chain _).push hnot
    · have htable : (m.add tolower key).m_table b = m.m_table b := by
        simp [Map.add, Ne.symm hb]
      rw [htable, if_neg (by simp [hb])]
      exact (h.chain b).update hnot _
  · rw [used_add, hnext]
    exact h.list.push not_mem_used

theorem inv_new (tolower : Int8 → Int8) (nodes : Nat → CVar) : Inv tolower (new nodes) [] :=
  ⟨rfl, fun _ => rfl, rfl, Nat.zero_le _⟩

/-- **`get` gives a node in use with the key**: the one that is there, or a new one. -/
theorem Inv.get (h : Inv tolower m keys) (hshort : key.chars.length < 100)
    (hroom : (keys ++ [key]).dedup.length ≤ VAR_SIZE) :
    ∃ m' kn, m.get tolower key = some (m', kn) ∧ Inv tolower m' (keys ++ [key]) ∧
      kn ∈ m'.used ∧ m'.keyOf kn = key ∧
      ∀ i ∈ m.used, i ∈ m'.used ∧ m'.keyOf i = m.keyOf i := by
  rw [Map.get, if_pos hshort, h.find key]
  cases hfind : m.used.find? fun i => m.keyOf i = key with
  | some kn =>
    have hmem := List.mem_of_find?_eq_some hfind
    have hkey : m.keyOf kn = key := by simpa using List.find?_some hfind
    have hold : key ∈ keys := h.mem_keys.mpr ⟨kn, hmem, hkey⟩
    refine ⟨m, kn, rfl, ⟨?_, h.chain, h.list, h.room⟩, hmem, hkey, fun i hi => ⟨hi, rfl⟩⟩
    rw [List.reverse_append, List.reverse_singleton, List.singleton_append,
      List.dedup_cons_of_mem (List.mem_reverse.mpr hold)]
    exact h.keys
  | none =>
    have hnew : key ∉ keys := by
      intro hmem
      obtain ⟨i, hi, hkey⟩ := h.mem_keys.mp hmem
      exact List.find?_eq_none.mp hfind i hi (decide_eq_true hkey)
    have hlt : m.m_node_index < VAR_SIZE := by
      have hperm := (List.perm_append_singleton key keys).dedup
      rw [List.dedup_cons_of_notMem hnew] at hperm
      have hlen := hperm.length_eq
      rw [List.length_cons] at hlen
      rw [h.count]
      omega
    refine ⟨_, _, if_pos hlt, h.add hnew hlt, ?_, keyOf_add_self, fun i hi => ⟨?_, keyOf_add hi⟩⟩
    · rw [used_add]
      exact List.mem_cons_self ..
    · rw [used_add]
      exact List.mem_cons_of_mem _ hi

end Map

/-! ## Every run -/

variable {tolower} {calls : List Call} {s s' : State}

theorem getKeys_append (calls calls' : List Call) :
    getKeys (calls ++ calls') = getKeys calls ++ getKeys calls' := by
  induction calls with
  | nil => rfl
  | cons c calls ih => cases c <;> simp [getKeys, ih]

theorem mem_getKeys {k : CStr} : k ∈ getKeys calls ↔ Call.get k ∈ calls := by
  induction calls with
  | nil => simp [getKeys]
  | cons c calls ih => cases c <;> simp [getKeys, ih]

/-- The state after the calls. -/
structure Good (tolower : Int8 → Int8) (calls : List Call) (s : State) : Prop where
  inv : Map.Inv tolower s.map (getKeys calls)
  answered : s.log.map Prod.fst = calls
  node : ∀ k a, (.get k, .node a) ∈ s.log → a ∈ s.map.used ∧ s.map.keyOf a = k
  exist : ∀ k b before after, s.log = before ++ (.isExist k, .exist b) :: after →
    (b = true ↔ Call.get k ∈ before.map Prod.fst)

theorem Good.step_get (h : Good tolower calls s) {key : CStr} (hshort : key.chars.length < 100)
    (hroom : (getKeys (calls ++ [.get key])).dedup.length ≤ VAR_SIZE) :
    ∃ s', step tolower s (.get key) = some s' ∧ Good tolower (calls ++ [.get key]) s' := by
  rw [getKeys_append] at hroom
  obtain ⟨m', kn, hget, hinv, hmem, hkey, hold⟩ := h.inv.get hshort hroom
  refine ⟨⟨m', s.log ++ [(.get key, .node kn)]⟩, by rw [step, hget]; rfl, ?_, ?_, ?_, ?_⟩
  · rw [getKeys_append]
    exact hinv
  · rw [List.map_append, h.answered]
    rfl
  · intro k a hlog
    rcases List.mem_append.mp hlog with hlog | hlog
    · obtain ⟨ha, hk⟩ := h.node k a hlog
      obtain ⟨ha', hk'⟩ := hold a ha
      exact ⟨ha', hk'.trans hk⟩
    · simp only [List.mem_singleton, Prod.mk.injEq, Call.get.injEq, Answer.node.injEq] at hlog
      obtain ⟨rfl, rfl⟩ := hlog
      exact ⟨hmem, hkey⟩
  · intro k b before after hlog
    rcases split_concat hlog with ⟨-, hx⟩ | ⟨after', hlog, -⟩
    · cases hx
    · exact h.exist k b before after' hlog

theorem Good.step_isExist (h : Good tolower calls s) (key : CStr) :
    ∃ s', step tolower s (.isExist key) = some s' ∧
      Good tolower (calls ++ [.isExist key]) s' := by
  have hkeys : getKeys (calls ++ [.isExist key]) = getKeys calls := by
    rw [getKeys_append, getKeys, getKeys, List.append_nil]
  have hexist : (s.map.used.find? fun i => s.map.keyOf i = key).isSome = true ↔
      Call.get key ∈ calls := by
    rw [← mem_getKeys, h.inv.mem_keys, List.find?_isSome]
    simp
  refine ⟨⟨s.map, s.log ++ [(.isExist key, .exist
    (s.map.used.find? fun i => s.map.keyOf i = key).isSome)]⟩, ?_, ?_, ?_, ?_, ?_⟩
  · rw [step, Map.isExist, h.inv.find key]
    rfl
  · rw [hkeys]
    exact h.inv
  · rw [List.map_append, h.answered]
    rfl
  · intro k a hlog
    rcases List.mem_append.mp hlog with hlog | hlog
    · exact h.node k a hlog
    · simp at hlog
  · intro k b before after hlog
    rcases split_concat hlog with ⟨rfl, hx⟩ | ⟨after', hlog, -⟩
    · simp only [Prod.mk.injEq, Call.isExist.injEq, Answer.exist.injEq] at hx
      obtain ⟨rfl, rfl⟩ := hx
      rw [h.answered]
      exact hexist
    · exact h.exist k b before after' hlog

theorem Good.isMap (h : Good tolower calls s) : IsMap tolower calls s := by
  refine ⟨h.answered, ?_, h.exist, ?_, ?_, generateHashValue_range tolower, ?_⟩
  · intro k k' a b ha hb
    obtain ⟨hau, rfl⟩ := h.node k a ha
    obtain ⟨hbu, rfl⟩ := h.node k' b hb
    constructor
    · rintro rfl
      rfl
    · exact h.inv.keyOf_inj hau hbu
  · intro k s' hs
    rw [step, Map.isExist, h.inv.find k] at hs
    obtain rfl := Option.some.inj hs
    rfl
  · intro k a ha
    obtain ⟨hau, rfl⟩ := h.node k a ha
    exact ⟨_, h.inv.chain _, List.mem_filter.mpr ⟨hau, by simp⟩⟩
  · exact ⟨_, h.inv.list, h.inv.keys⟩

/-- A state before any call. -/
def start (nodes : Nat → CVar) : State := ⟨Map.new nodes, []⟩

/-- **`HashMap` is a map**: every sequence of calls with short keys is answered as by a map, as long
as there is a node for each distinct key. -/
theorem isMap_exec (nodes : Nat → CVar) (calls : List Call) (hshort : ∀ c ∈ calls, c.Short)
    (hroom : (getKeys calls).dedup.length ≤ VAR_SIZE) :
    ∃ s, exec (step tolower) (start nodes) calls = some s ∧ IsMap tolower calls s := by
  suffices hgood : ∃ s, exec (step tolower) (start nodes) calls = some s ∧ Good tolower calls s by
    obtain ⟨s, hs, h⟩ := hgood
    exact ⟨s, hs, h.isMap⟩
  induction calls using List.reverseRecOn with
  | nil =>
    refine ⟨_, rfl, Map.inv_new tolower nodes, rfl, fun k a h => ?_, fun k b before after h => ?_⟩
    · cases h
    · simp [start] at h
  | append_singleton calls c ih =>
    have hsub : (getKeys calls).dedup ⊆ (getKeys (calls ++ [c])).dedup := by
      intro k hk
      rw [List.mem_dedup] at hk ⊢
      rw [getKeys_append]
      exact List.mem_append_left _ hk
    have hle := (List.Nodup.subperm (List.nodup_dedup _) hsub).length_le
    obtain ⟨s, hs, hgood⟩ := ih (fun c hc => hshort c (List.mem_append_left _ hc))
      (Nat.le_trans hle hroom)
    have hc := hshort c (List.mem_append_right _ (List.mem_singleton_self c))
    rw [exec_append, hs, Option.bind_some]
    cases c with
    | get key =>
      obtain ⟨s', hs', hgood'⟩ := hgood.step_get hc hroom
      exact ⟨s', exec_cons hs', hgood'⟩
    | isExist key =>
      obtain ⟨s', hs', hgood'⟩ := hgood.step_isExist key
      exact ⟨s', exec_cons hs', hgood'⟩

/-- `tolower` on the letters of ASCII -/
def asciiLower (c : Int8) : Int8 := if 65 ≤ c ∧ c ≤ 90 then c + 32 else c

/-- Two keys that differ in case, with one hash value. -/
def caseVariants : List Call :=
  [.get ⟨[97, 98], by decide⟩, .isExist ⟨[65, 98], by decide⟩, .get ⟨[65, 98], by decide⟩]

theorem isMap_caseVariants :
    ∃ s, exec (step asciiLower) (start fun _ => ⟨⟨[], by decide⟩, none, none⟩) caseVariants =
      some s ∧ IsMap asciiLower caseVariants s :=
  isMap_exec _ caseVariants (by decide) (by decide)

end GhNet.Base.HashMap
