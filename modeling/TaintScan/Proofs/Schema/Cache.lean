import Mathlib.Data.List.Dedup
import Mathlib.Data.List.Perm.Basic
import TaintScan.Proofs.OrderedMap
import TaintScan.Proofs.Schema.Folder

namespace TaintScan

namespace SchemaCache

structure Service where
  cache : SchemaCache
  lookups : List Lookup

/-- A look-up is begun, or one of them takes a step, with the files as they are then. -/
inductive Event
  | begin (key : SchemaKey)
  | step (index : Nat) (files : Files)

namespace Service

def idle : Service := ⟨.empty, []⟩

def put (s : Service) (index : Nat) (l : Lookup) : Service :=
  { s with lookups := s.lookups.set index l }

def next (folder : SchemaFolder) (s : Service) : Event → Service
  | .begin key => { s with lookups := s.lookups ++ [.begun key] }
  | .step index files =>
    match s.lookups[index]? with
    | none => s
    | some l =>
      let (moved, cache) := s.cache.step folder files l
      ⟨cache, s.lookups.set index moved⟩

def inserts? (s : Service) : Event → Option SchemaKey
  | .begin _ => none
  | .step index _ =>
    match s.lookups[index]? with
    | some (.loaded key _) => if (s.cache.get? key).isNone then some key else none
    | _ => none

inductive Moves (folder : SchemaFolder) (s : Service) : Event → Service → Prop
  | begun {key} : Moves folder s (.begin key) { s with lookups := s.lookups ++ [.begun key] }
  | nobody {i files} (absent : s.lookups[i]? = none) : Moves folder s (.step i files) s
  | hit {i files key schema} (stands : s.lookups[i]? = some (.begun key))
      (kept : s.cache.get? key = some schema) :
      Moves folder s (.step i files) (s.put i (.done key (.ok schema)))
  | miss {i files key} (stands : s.lookups[i]? = some (.begun key))
      (free : s.cache.get? key = none) : Moves folder s (.step i files) (s.put i (.missed key))
  | load {i files key schema} (stands : s.lookups[i]? = some (.missed key))
      (found : folder.load files key = .ok schema) :
      Moves folder s (.step i files) (s.put i (.loaded key schema))
  | fail {i files key e} (stands : s.lookups[i]? = some (.missed key))
      (refused : folder.load files key = .error e) :
      Moves folder s (.step i files) (s.put i (.done key (.error e)))
  | late {i files key schema first} (stands : s.lookups[i]? = some (.loaded key schema))
      (kept : s.cache.get? key = some first) :
      Moves folder s (.step i files) (s.put i (.done key (.ok first)))
  | keep {i files key schema} (stands : s.lookups[i]? = some (.loaded key schema))
      (free : s.cache.get? key = none) : Moves folder s (.step i files)
        ⟨s.cache.insert key schema, s.lookups.set i (.done key (.ok schema))⟩
  | rest {i files key result} (stands : s.lookups[i]? = some (.done key result)) :
      Moves folder s (.step i files) (s.put i (.done key result))

variable {folder : SchemaFolder} {s t : Service} {event : Event} {i : Nat} {key : SchemaKey}
  {schema : Schema} {result : Except Error Schema}

theorem next_moves (folder : SchemaFolder) (s : Service) (event : Event) :
    Moves folder s event (s.next folder event) := by
  cases event with
  | begin key => exact .begun
  | step i files =>
    cases stands : s.lookups[i]? with
    | none =>
      rw [next, stands]
      exact .nobody stands
    | some l =>
      rw [next, stands]
      cases l with
      | begun key =>
        cases known : s.cache.get? key with
        | none =>
          simp only [step, known]
          exact .miss stands known
        | some kept =>
          simp only [step, known]
          exact .hit stands known
      | missed key =>
        cases found : folder.load files key with
        | error e =>
          simp only [step, found]
          exact .fail stands found
        | ok schema =>
          simp only [step, found]
          exact .load stands found
      | loaded key schema =>
        cases known : s.cache.get? key with
        | none =>
          simp only [step, SchemaCache.keep, known]
          exact .keep stands known
        | some first =>
          simp only [step, SchemaCache.keep, known]
          exact .late stands known
      | done key result => exact .rest stands

theorem Moves.kept (h : Moves folder s event t) (known : s.cache.get? key = some schema) :
    t.cache.get? key = some schema := by
  cases h with
  | keep _ free => exact OrderedMap.get?_insert_of_free known free
  | _ => exact known

theorem Moves.settled (h : Moves folder s event t)
    (done : s.lookups[i]? = some (.done key result)) : t.lookups[i]? = some (.done key result) := by
  have bound : i < s.lookups.length := (List.getElem?_eq_some_iff.mp done).1
  cases h with
  | begun =>
    show (s.lookups ++ _)[i]? = _
    rw [List.getElem?_append_left bound, done]
  | nobody _ => exact done
  | @rest j _ _ _ stands =>
    show (s.lookups.set j _)[i]? = _
    by_cases same : j = i
    · subst same
      rw [List.getElem?_set_self bound, ← stands, done]
    · rw [List.getElem?_set_ne same, done]
  | @hit j _ _ _ stands _ | @miss j _ _ stands _ | @load j _ _ _ stands _ | @fail j _ _ _ stands _
  | @late j _ _ _ _ stands _ | @keep j _ _ _ stands _ =>
    have other : j ≠ i := by
      rintro rfl
      rw [done] at stands
      cases stands
    show (s.lookups.set j _)[i]? = _
    rw [List.getElem?_set_ne other, done]

theorem Moves.unchanged {files : Files} (h : Moves folder s (.step i files) t) :
    t.cache = s.cache ∨ ∃ key schema, t.lookups[i]? = some (.done key (.ok schema)) := by
  cases h with
  | @keep _ _ key schema stands _ =>
    have bound : i < s.lookups.length := (List.getElem?_eq_some_iff.mp stands).1
    exact .inr ⟨key, schema, List.getElem?_set_self bound⟩
  | _ => exact .inl rfl

def Fits (cache : SchemaCache) : Lookup → Prop
  | .loaded key schema => schema.Answers key
  | .done key (.ok schema) => cache.get? key = some schema
  | _ => True

theorem Fits.insert {cache : SchemaCache} {l : Lookup} (h : Fits cache l)
    (free : cache.get? key = none) : Fits (cache.insert key schema) l := by
  rcases l with _ | _ | _ | ⟨other, _ | found⟩
  · trivial
  · trivial
  · exact h
  · trivial
  · have known : cache.get? other = some found := h
    exact OrderedMap.get?_insert_of_free known free

/-- What holds between the cache, the look-ups, and the keys that were inserted. -/
structure Coherent (s : Service) (keys : List SchemaKey) : Prop where
  cached : ∀ key schema, s.cache.get? key = some schema → schema.Answers key
  fits : ∀ l ∈ s.lookups, Fits s.cache l
  keyed : ∀ key, key ∈ s.cache.keys ↔ key ∈ keys

theorem idle_coherent : idle.Coherent [] := by
  constructor
  · intro key schema known
    cases known
  · intro l member
    cases member
  · exact fun _ => Iff.rfl

theorem Coherent.put {keys : List SchemaKey} {l : Lookup} (h : s.Coherent keys)
    (fits : Fits s.cache l) : (s.put i l).Coherent keys := by
  refine ⟨h.cached, fun other member => ?_, h.keyed⟩
  rcases List.mem_or_eq_of_mem_set member with member | rfl
  · exact h.fits other member
  · exact fits

theorem Coherent.keep {keys : List SchemaKey} (h : s.Coherent keys)
    (stands : s.lookups[i]? = some (.loaded key schema)) (free : s.cache.get? key = none) :
    Coherent ⟨s.cache.insert key schema, s.lookups.set i (.done key (.ok schema))⟩
      (keys ++ [key]) := by
  constructor
  · intro other found known
    rw [OrderedMap.get?_insert] at known
    split at known
    · rename_i same
      cases known
      exact same ▸ h.fits _ (List.mem_of_getElem? stands)
    · exact h.cached other found known
  · intro l member
    rcases List.mem_or_eq_of_mem_set member with member | rfl
    · exact (h.fits l member).insert free
    · show (s.cache.insert key schema).get? key = some schema
      rw [OrderedMap.get?_insert, if_pos rfl]
  · intro other
    show other ∈ (s.cache.insert key schema).keys ↔ _
    rw [OrderedMap.keys, OrderedMap.insert, OrderedMap.mem_keys_insertEntry, List.mem_append,
      List.mem_singleton, or_comm]
    exact or_congr_left (h.keyed other)

theorem Moves.coherent {keys : List SchemaKey} (h : Moves folder s event t)
    (before : s.Coherent keys) : t.Coherent (keys ++ (s.inserts? event).toList) := by
  cases h with
  | begun =>
    rw [inserts?, Option.toList_none, List.append_nil]
    refine ⟨before.cached, fun l member => ?_, before.keyed⟩
    rcases List.mem_append.mp member with member | member
    · exact before.fits l member
    · rw [List.mem_singleton.mp member]
      trivial
  | nobody absent => simpa [inserts?, absent] using before
  | hit stands kept =>
    simp only [inserts?, stands, Option.toList_none, List.append_nil]
    exact before.put kept
  | miss stands free =>
    simp only [inserts?, stands, Option.toList_none, List.append_nil]
    exact before.put trivial
  | load stands found =>
    simp only [inserts?, stands, Option.toList_none, List.append_nil]
    exact before.put (SchemaFolder.answers_of_load found)
  | fail stands refused =>
    simp only [inserts?, stands, Option.toList_none, List.append_nil]
    exact before.put trivial
  | late stands kept =>
    simp only [inserts?, stands, kept, Option.isNone_some, Bool.false_eq_true, if_false,
      Option.toList_none, List.append_nil]
    exact before.put kept
  | keep stands free =>
    simp only [inserts?, stands, free, Option.isNone_none, if_true, Option.toList_some]
    exact before.keep stands free
  | rest stands =>
    simp only [inserts?, stands, Option.toList_none, List.append_nil]
    exact before.put (before.fits _ (List.mem_of_getElem? stands))

def run (folder : SchemaFolder) (s : Service) (events : List Event) : Service :=
  events.foldl (next folder) s

def insertedFrom (folder : SchemaFolder) : Service → List Event → List SchemaKey
  | _, [] => []
  | s, event :: events =>
    (s.inserts? event).toList ++ insertedFrom folder (s.next folder event) events

variable {events : List Event}

theorem run_append (earlier later : List Event) :
    s.run folder (earlier ++ later) = (s.run folder earlier).run folder later :=
  List.foldl_append

theorem run_coherent {keys : List SchemaKey} (before : s.Coherent keys) :
    (s.run folder events).Coherent (keys ++ s.insertedFrom folder events) := by
  induction events generalizing s keys with
  | nil => simpa [run, insertedFrom] using before
  | cons event events ih =>
    have after := ih ((next_moves folder s event).coherent before)
    rwa [List.append_assoc] at after

theorem run_kept (known : s.cache.get? key = some schema) :
    (s.run folder events).cache.get? key = some schema := by
  induction events generalizing s with
  | nil => exact known
  | cons event events ih => exact ih ((next_moves folder s event).kept known)

theorem run_settled (done : s.lookups[i]? = some (.done key result)) :
    (s.run folder events).lookups[i]? = some (.done key result) := by
  induction events generalizing s with
  | nil => exact done
  | cons event events ih => exact ih ((next_moves folder s event).settled done)

end Service

/-- A run in which the first event meets an empty cache. -/
def play (folder : SchemaFolder) (events : List Event) : Service := Service.idle.run folder events

def insertedIn (folder : SchemaFolder) (events : List Event) : List SchemaKey :=
  Service.idle.insertedFrom folder events

section Runs

variable {folder : SchemaFolder} {events earlier later : List Event} {i j : Nat} {key : SchemaKey}
  {schema one two : Schema} {files : Files} {e : Error}

theorem play_coherent (folder : SchemaFolder) (events : List Event) :
    (play folder events).Coherent (insertedIn folder events) :=
  Service.run_coherent Service.idle_coherent

theorem play_append (folder : SchemaFolder) (earlier later : List Event) :
    play folder (earlier ++ later) = (play folder earlier).run folder later :=
  Service.run_append earlier later

theorem play_snoc (folder : SchemaFolder) (events : List Event) (event : Event) :
    play folder (events ++ [event]) = (play folder events).next folder event := by
  rw [play_append]
  rfl

theorem play_answer (done : (play folder events).lookups[i]? = some (.done key (.ok schema))) :
    (play folder events).cache.get? key = some schema :=
  (play_coherent folder events).fits _ (List.mem_of_getElem? done)

theorem play_agrees (first : (play folder earlier).lookups[i]? = some (.done key (.ok one)))
    (second : (play folder (earlier ++ later)).lookups[j]? = some (.done key (.ok two))) :
    one = two := by
  have kept : (play folder (earlier ++ later)).cache.get? key = some one := by
    rw [play_append]
    exact Service.run_kept (play_answer first)
  rw [play_answer second] at kept
  exact (Option.some.inj kept).symm

/-- The step of a look-up that fails in the end was not the one that succeeds, and no other changes
the cache. -/
theorem play_failed
    (failed : (play folder (earlier ++ .step i files :: later)).lookups[i]? =
      some (.done key (.error e))) :
    (play folder (earlier ++ [.step i files])).cache = (play folder earlier).cache := by
  rw [play_append] at failed
  rw [play_snoc]
  have moves := Service.next_moves folder (play folder earlier) (.step i files)
  rcases moves.unchanged with same | ⟨other, schema, done⟩
  · exact same
  · have kept : (((play folder earlier).next folder (.step i files)).run folder later).lookups[i]? =
        some (.done other (.ok schema)) := Service.run_settled done
    have both := kept.symm.trans failed
    cases both

theorem play_misses (stands : (play folder events).lookups[i]? = some (.begun key))
    (free : key ∉ insertedIn folder events) (files : Files) :
    (play folder (events ++ [.step i files])).lookups[i]? = some (.missed key) := by
  have bound : i < (play folder events).lookups.length := (List.getElem?_eq_some_iff.mp stands).1
  have unknown : (play folder events).cache.get? key = none := by
    rw [← (play_coherent folder events).keyed, OrderedMap.mem_keys_iff] at free
    simpa using free
  rw [play_snoc]
  simp only [Service.next, stands, step, unknown]
  exact List.getElem?_set_self bound

theorem play_loads (stands : (play folder events).lookups[i]? = some (.missed key))
    (files : Files) :
    (play folder (events ++ [.step i files])).lookups[i]? = some (match folder.load files key with
      | .ok schema => .loaded key schema
      | .error e => .done key (.error e)) := by
  have bound : i < (play folder events).lookups.length := (List.getElem?_eq_some_iff.mp stands).1
  rw [play_snoc]
  simp only [Service.next, stands, step]
  rw [List.getElem?_set_self bound]
  cases folder.load files key <;> rfl

theorem length_play (folder : SchemaFolder) (events : List Event) :
    (play folder events).cache.entries.length = (insertedIn folder events).dedup.length := by
  have same : (play folder events).cache.keys.Perm (insertedIn folder events).dedup := by
    apply (List.perm_ext_iff_of_nodup (play folder events).cache.distinct (List.nodup_dedup _)).mpr
    intro key
    rw [List.mem_dedup]
    exact (play_coherent folder events).keyed key
  rw [← same.length_eq, OrderedMap.keys, List.length_map]

/-- Look-ups through one cache, with their steps in any order and the files changed at any time. All
that succeed for a key have one schema, for the whole run; it is checked and has the stylesheet and
the version of the key. No step of a look-up that fails changes the cache. A look-up that begins
while its key has not been inserted goes to the files, and what is there at that time decides. The
cache has as many schemas as there are keys that were inserted. -/
theorem lookups_agree (folder : SchemaFolder) :
    (∀ (earlier later : List Event) (i j : Nat) (key : SchemaKey) (one two : Schema),
      (play folder earlier).lookups[i]? = some (.done key (.ok one)) →
      (play folder (earlier ++ later)).lookups[j]? = some (.done key (.ok two)) → one = two) ∧
    (∀ (events : List Event) (i : Nat) (key : SchemaKey) (schema : Schema),
      (play folder events).lookups[i]? = some (.done key (.ok schema)) →
      schema.check = .ok () ∧ schema.stylesheet = key.stylesheet ∧ schema.version = key.version) ∧
    (∀ (earlier later : List Event) (i : Nat) (files : Files) (key : SchemaKey) (e : Error),
      (play folder (earlier ++ .step i files :: later)).lookups[i]? = some (.done key (.error e)) →
      (play folder (earlier ++ [.step i files])).cache = (play folder earlier).cache) ∧
    (∀ (events : List Event) (i : Nat) (key : SchemaKey) (files : Files),
      (play folder events).lookups[i]? = some (.begun key) → key ∉ insertedIn folder events →
      (play folder (events ++ [.step i files])).lookups[i]? = some (.missed key)) ∧
    (∀ (events : List Event) (i : Nat) (key : SchemaKey) (files : Files),
      (play folder events).lookups[i]? = some (.missed key) →
      (play folder (events ++ [.step i files])).lookups[i]? = some (match folder.load files key with
        | .ok schema => .loaded key schema
        | .error e => .done key (.error e))) ∧
    ∀ events, (play folder events).cache.entries.length =
      (insertedIn folder events).dedup.length := by
  refine ⟨fun _ _ _ _ _ _ _ => play_agrees, fun events i key schema done => ?_,
    fun _ _ _ _ _ _ => play_failed, fun _ _ _ files stands free => play_misses stands free files,
    fun _ _ _ files stands => play_loads stands files, length_play folder⟩
  have answers := (play_coherent folder events).cached key schema (play_answer done)
  rw [← answers.named]
  exact ⟨answers.checked, rfl, rfl⟩

end Runs

section Trial

def trialFolder : SchemaFolder := ⟨⟨[]⟩, .standard⟩

def trialKey : SchemaKey := ⟨"item.xsl", 1⟩

def trialEdition (name : String) : Schema :=
  let type := ElementType.empty ⟨⟨1⟩⟩ name
  ⟨"item.xsl", 1, [type], [type.reference ⟨⟨2⟩⟩ name], [], []⟩

def trialFiles (name : String) : Files :=
  Files.empty.write (trialFolder.fileOf trialKey) (trialEdition name).jsonText

theorem load_trial {name : String} (checked : (trialEdition name).check = .ok ())
    (small : Text.byteCount ((trialEdition name).toJson.indented 0) ≤
      trialFolder.limits.maxDocumentSize.toNat) :
    trialFolder.load (trialFiles name) trialKey = .ok (trialEdition name) := by
  rw [Text.byteCount_eq] at small
  exact SchemaFolder.load_written checked small .empty

def trialAbsent : Error := .resource (.unreadable (trialFolder.fileOf trialKey).text .notFound)

theorem load_absent : trialFolder.load .empty trialKey = .error trialAbsent := by
  simp only [SchemaFolder.load, Location.load, Files.empty]
  rfl

def trialMisses : List Event := [.begin trialKey, .step 0 .empty, .step 0 .empty, .begin trialKey,
  .begin trialKey, .step 1 .empty, .step 2 .empty]

def trialLoads (first second : Files) : List Event :=
  [.step 1 first, .step 2 second, .step 2 .empty]

theorem play_trialMisses : play trialFolder trialMisses =
    ⟨.empty, [.done trialKey (.error trialAbsent), .missed trialKey, .missed trialKey]⟩ := by
  simp [play, trialMisses, Service.run, Service.idle, Service.next, step, OrderedMap.empty,
    OrderedMap.get?, load_absent]

section Race

variable {first second : Files} {one two : Schema}
  (finds : trialFolder.load first trialKey = .ok one)
  (findsToo : trialFolder.load second trialKey = .ok two)
include finds findsToo

theorem play_trialLoads : play trialFolder (trialMisses ++ trialLoads first second) =
    ⟨OrderedMap.empty.insert trialKey two, [.done trialKey (.error trialAbsent),
      .loaded trialKey one, .done trialKey (.ok two)]⟩ := by
  rw [play_append, play_trialMisses]
  simp [trialLoads, Service.run, Service.next, step, SchemaCache.keep, OrderedMap.empty,
    OrderedMap.get?, finds, findsToo]

theorem play_trialRace :
    play trialFolder (trialMisses ++ trialLoads first second ++ [.step 1 .empty]) =
      ⟨OrderedMap.empty.insert trialKey two, [.done trialKey (.error trialAbsent),
        .done trialKey (.ok two), .done trialKey (.ok two)]⟩ := by
  rw [play_snoc, play_trialLoads finds findsToo]
  simp [Service.next, step, SchemaCache.keep, OrderedMap.get?_insert]

end Race

theorem lookups_agree_racing :
    let loads := trialMisses ++ trialLoads (trialFiles "a") (trialFiles "b")
    (play trialFolder loads).lookups[1]? = some (.loaded trialKey (trialEdition "a")) ∧
    (∃ schema, (play trialFolder (loads ++ [.step 1 .empty])).lookups[1]? =
      some (.done trialKey (.ok schema)) ∧ trialEdition "b" = schema ∧
        schema.check = .ok () ∧ schema.stylesheet = "item.xsl" ∧ schema.version = 1) ∧
    (play trialFolder ([.begin trialKey, .step 0 .empty] ++ [.step 0 .empty])).cache =
      (play trialFolder [.begin trialKey, .step 0 .empty]).cache ∧
    (play trialFolder ([.begin trialKey] ++ [.step 0 .empty])).lookups[0]? =
      some (.missed trialKey) ∧
    (play trialFolder (trialMisses ++ [.step 1 (trialFiles "a")])).lookups[1]? =
      some (.loaded trialKey (trialEdition "a")) ∧
    (play trialFolder loads).cache.entries.length = (insertedIn trialFolder loads).dedup.length := by
  intro loads
  rcases lookups_agree trialFolder with ⟨agree, answers, fails, misses, reloads, count⟩
  have a : trialFolder.load (trialFiles "a") trialKey = .ok (trialEdition "a") :=
    load_trial rfl (by decide +kernel)
  have b : trialFolder.load (trialFiles "b") trialKey = .ok (trialEdition "b") :=
    load_trial rfl (by decide +kernel)
  have loaded : (play trialFolder loads).lookups[1]? =
      some (.loaded trialKey (trialEdition "a")) := by
    rw [play_trialLoads a b]
    rfl
  have kept : (play trialFolder loads).lookups[2]? =
      some (.done trialKey (.ok (trialEdition "b"))) := by
    rw [play_trialLoads a b]
    rfl
  have late : (play trialFolder (loads ++ [.step 1 .empty])).lookups[1]? =
      some (.done trialKey (.ok (trialEdition "b"))) := by
    rw [play_trialRace a b]
    rfl
  have failed : (play trialFolder ([.begin trialKey, .step 0 .empty] ++ .step 0 .empty ::
      trialMisses.drop 3)).lookups[0]? = some (.done trialKey (.error trialAbsent)) := by
    show (play trialFolder trialMisses).lookups[0]? = _
    rw [play_trialMisses]
    rfl
  have missed : (play trialFolder trialMisses).lookups[1]? = some (.missed trialKey) := by
    rw [play_trialMisses]
    rfl
  have again := reloads trialMisses 1 trialKey (trialFiles "a") missed
  rw [a] at again
  have same := agree _ _ 2 1 _ _ _ kept late
  exact ⟨loaded, ⟨trialEdition "b", late, same, answers _ 1 _ _ late⟩, fails _ _ 0 _ _ _ failed,
    misses _ 0 _ _ rfl (by decide), again, count _⟩

end Trial

end SchemaCache

end TaintScan
