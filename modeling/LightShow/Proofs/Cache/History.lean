import LightShow.Cache
import LightShow.Proofs.Sequence
import Mathlib.Data.List.Dedup
import Mathlib.Data.List.Nodup

namespace LightShow

open Sequence

namespace Cache

variable {κ : Type}

/-- What may be asked of a cache. To look whether a key is kept, or how many keys are, changes
nothing. -/
inductive Request (κ : Type) where
  | get (key : κ) (load : κ → Except CodecError Show)
  | clear

/-- A cache with what has been handed out from it. -/
structure History (κ : Type) where
  cache : Cache κ
  /-- The number for the next object; every look-up has one of its own. -/
  serial : Nat
  /-- Each look-up that has succeeded since the cache was last cleared, first to last, with its key
  and with what it returned. -/
  found : List (κ × Shared Show)
  /-- Each look-up that has ever succeeded. -/
  past : List (κ × Shared Show)

namespace History

def start : History κ := ⟨⟨[]⟩, 0, [], []⟩

/-- The history after a look-up of a key. -/
def record (h : History κ) (key : κ) (answer : Lookup κ) : History κ :=
  let success := (answer.result.toOption.map (key, ·)).toList
  ⟨answer.cache, h.serial + 1, h.found ++ success, h.past ++ success⟩

def clear (h : History κ) : History κ := { h with cache := ⟨[]⟩, found := [] }

variable {h : History κ} {key : κ} {object : Shared Show}

/-- A success is kept in mind. -/
theorem record_of_ok {answer : Lookup κ} (hanswer : answer.result = .ok object) :
    h.record key answer =
      ⟨answer.cache, h.serial + 1, h.found ++ [(key, object)], h.past ++ [(key, object)]⟩ := by
  simp only [record, hanswer, Except.toOption, Option.map_some, Option.toList_some]

/-- A failure leaves no trace but for the number that it has used up. -/
theorem record_of_error {answer : Lookup κ} {error : CodecError}
    (hanswer : answer.result = .error error) :
    h.record key answer = ⟨answer.cache, h.serial + 1, h.found, h.past⟩ := by
  simp only [record, hanswer, Except.toOption, Option.map_none, Option.toList_none,
    List.append_nil]

variable [DecidableEq κ]

/-- What the first look-up of a key returned that has succeeded since the cache was cleared. -/
def first? (h : History κ) (key : κ) : Option (Shared Show) := h.found.lookup key

def ask (h : History κ) : Request κ → History κ
  | .get key load => h.record key (h.cache.fetch h.serial key load)
  | .clear => h.clear

def after (requests : List (Request κ)) : History κ := requests.foldl ask start

/-- The look-up of a key is answered as its history demands. What would be loaded counts only if
nothing has been found so far. -/
structure Answers (h : History κ) (key : κ) (offered : Except CodecError Show)
    (answer : Lookup κ) : Prop where
  loaded : answer.loaded = true ↔ h.first? key = none
  again : ∀ object, h.first? key = some object →
    answer.result = .ok object ∧ answer.cache = h.cache
  failed : h.first? key = none → ∀ error, offered = .error error →
    answer.result = .error error ∧ answer.cache = h.cache
  fresh : h.first? key = none → ∀ program, offered = .ok program →
    answer.result = .ok ⟨h.serial, program⟩ ∧
      ∀ other object, (other, object) ∈ h.past → object.serial ≠ h.serial

/-- The cache keeps what has been found since it was cleared: one object for each key. -/
structure Kept (h : History κ) : Prop where
  same : ∀ key object, (key, object) ∈ h.found → h.first? key = some object
  own : ∀ key key' object object', (key, object) ∈ h.past → (key', object') ∈ h.past →
    object.serial = object'.serial → key = key' ∧ object = object'
  contains : ∀ key, h.cache.contains key = true ↔ ∃ object, (key, object) ∈ h.found
  size : h.cache.size = (h.found.map (·.1)).dedup.length

/-- How a cache comes to keep what has been found: its entries are the first successes, and numbers
of objects are given out in order. -/
structure Sound (h : History κ) : Prop where
  get? : ∀ key, h.cache.get? key = h.first? key
  nodup : (h.cache.entries.map (·.1)).Nodup
  same : ∀ key object, (key, object) ∈ h.found → h.first? key = some object
  found : h.found ⊆ h.past
  numbered : ∀ key object, (key, object) ∈ h.past → object.serial < h.serial
  own : ∀ key key' object object', (key, object) ∈ h.past → (key', object') ∈ h.past →
    object.serial = object'.serial → key = key' ∧ object = object'

namespace Sound

/-- At the beginning there is nothing to be kept. -/
theorem start : (start : History κ).Sound := by
  constructor <;> simp [History.start, first?, Cache.get?]

/-- To clear a cache forgets what was found, but not which numbers have been given out. -/
theorem clear (hsound : h.Sound) : h.clear.Sound :=
  ⟨fun _ => rfl, List.nodup_nil, fun _ _ hmem => absurd hmem List.not_mem_nil, List.nil_subset _,
    hsound.numbered, hsound.own⟩

theorem skip (hsound : h.Sound) : Sound { h with serial := h.serial + 1 } :=
  ⟨hsound.get?, hsound.nodup, hsound.same, hsound.found,
    fun key object hmem => Nat.lt_succ_of_lt (hsound.numbered key object hmem), hsound.own⟩

/-- What is found again is the object that was found first. -/
theorem repeated (hsound : h.Sound) (hfirst : h.first? key = some object) :
    Sound { h with
      serial := h.serial + 1
      found := h.found ++ [(key, object)]
      past := h.past ++ [(key, object)] } := by
  have hpast : (key, object) ∈ h.past := hsound.found (mem_of_lookup hfirst)
  have hkept : ∀ key', (h.found ++ [(key, object)]).lookup key' = h.first? key' := by
    intro key'
    rw [lookup_append_singleton]
    split
    case isTrue heq => rw [heq, ← first?, hfirst, Option.some_or]
    case isFalse => exact Option.or_none
  have hold : ∀ entry ∈ h.past ++ [(key, object)], entry ∈ h.past := by
    intro entry hmem
    rcases List.mem_append.1 hmem with hmem | hmem
    · exact hmem
    · rwa [List.mem_singleton.1 hmem]
  constructor
  case get? => exact fun key' => (hsound.get? key').trans (hkept key').symm
  case nodup => exact hsound.nodup
  case same =>
    intro key' object' hmem
    rw [first?, hkept]
    rcases List.mem_append.1 hmem with hmem | hmem
    · exact hsound.same key' object' hmem
    · cases List.mem_singleton.1 hmem
      exact hfirst
  case found => exact append_subset_append hsound.found
  case numbered =>
    exact fun key' object' hmem => Nat.lt_succ_of_lt (hsound.numbered key' object' (hold _ hmem))
  case own =>
    exact fun key₁ key₂ object₁ object₂ h₁ h₂ =>
      hsound.own key₁ key₂ object₁ object₂ (hold _ h₁) (hold _ h₂)

/-- What is found for the first time is a new object, with the next number. -/
theorem stored (hsound : h.Sound) (hfirst : h.first? key = none) (program : Show) :
    Sound ⟨⟨(key, ⟨h.serial, program⟩) :: h.cache.entries⟩, h.serial + 1,
      h.found ++ [(key, ⟨h.serial, program⟩)], h.past ++ [(key, ⟨h.serial, program⟩)]⟩ := by
  have hkept : ∀ key', (h.found ++ [(key, (⟨h.serial, program⟩ : Shared Show))]).lookup key' =
      if key' = key then some ⟨h.serial, program⟩ else h.first? key' := by
    intro key'
    rw [lookup_append_singleton]
    split
    case isTrue heq => rw [heq, ← first?, hfirst, Option.none_or]
    case isFalse => exact Option.or_none
  have hnew : ∀ entry ∈ h.past ++ [(key, (⟨h.serial, program⟩ : Shared Show))],
      entry ∈ h.past ∨ entry = (key, ⟨h.serial, program⟩) := fun entry hmem =>
    (List.mem_append.1 hmem).imp_right List.mem_singleton.1
  have habsent : key ∉ h.cache.entries.map (·.1) := by
    intro hmem
    obtain ⟨⟨_, object⟩, hobject, rfl⟩ := List.mem_map.1 hmem
    obtain ⟨first, hfound⟩ := exists_lookup_iff.2 ⟨object, hobject⟩
    rw [← Cache.get?, hsound.get?, hfirst] at hfound
    cases hfound
  constructor
  case get? =>
    intro key'
    rw [first?, hkept, ← hsound.get?, Cache.get?, List.lookup_cons]
    by_cases heq : key' = key
    · rw [if_pos heq, beq_iff_eq.2 heq]
    · rw [if_neg heq, beq_eq_false_iff_ne.2 heq]
      rfl
  case nodup => exact List.nodup_cons.2 ⟨habsent, hsound.nodup⟩
  case same =>
    intro key' object' hmem
    rw [first?, hkept]
    rcases List.mem_append.1 hmem with hmem | hmem
    · have hold := hsound.same key' object' hmem
      rw [if_neg, hold]
      rintro rfl
      rw [hfirst] at hold
      cases hold
    · cases List.mem_singleton.1 hmem
      rw [if_pos rfl]
  case found => exact append_subset_append hsound.found
  case numbered =>
    intro key' object' hmem
    rcases hnew _ hmem with hmem | heq
    · exact Nat.lt_succ_of_lt (hsound.numbered key' object' hmem)
    · cases heq
      exact Nat.lt_succ_self _
  case own =>
    intro key₁ key₂ object₁ object₂ h₁ h₂ hserial
    rcases hnew _ h₁ with h₁ | heq₁ <;> rcases hnew _ h₂ with h₂ | heq₂
    · exact hsound.own key₁ key₂ object₁ object₂ h₁ h₂ hserial
    · cases heq₂
      exact absurd hserial (Nat.ne_of_lt (hsound.numbered key₁ object₁ h₁))
    · cases heq₁
      exact absurd hserial.symm (Nat.ne_of_lt (hsound.numbered key₂ object₂ h₂))
    · cases heq₁
      cases heq₂
      exact ⟨rfl, rfl⟩

/-- A key that has been found is answered from the cache, and nothing is loaded. -/
theorem fetch_eq_of_some (hsound : h.Sound) (hfirst : h.first? key = some object)
    (load : κ → Except CodecError Show) :
    h.cache.fetch h.serial key load = ⟨h.cache, false, .ok object⟩ := by
  rw [fetch, hsound.get?, hfirst]

/-- A key that has not been found is loaded, and kept if that succeeds. -/
theorem fetch_eq_of_ok (hsound : h.Sound) (hfirst : h.first? key = none)
    {load : κ → Except CodecError Show} {program : Show} (hload : load key = .ok program) :
    h.cache.fetch h.serial key load =
      ⟨⟨(key, ⟨h.serial, program⟩) :: h.cache.entries⟩, true, .ok ⟨h.serial, program⟩⟩ := by
  simp only [fetch, hsound.get?, hfirst, hload]

/-- A key that cannot be loaded is not kept. -/
theorem fetch_eq_of_error (hsound : h.Sound) (hfirst : h.first? key = none)
    {load : κ → Except CodecError Show} {error : CodecError} (hload : load key = .error error) :
    h.cache.fetch h.serial key load = ⟨h.cache, true, .error error⟩ := by
  simp only [fetch, hsound.get?, hfirst, hload]

/-- The cache keeps what it should after a look-up: in all three cases the entry for the key is what
was first found for it. -/
theorem record_fetch (hsound : h.Sound) (key : κ) (load : κ → Except CodecError Show) :
    (h.record key (h.cache.fetch h.serial key load)).Sound := by
  cases hfirst : h.first? key with
  | some object =>
    rw [hsound.fetch_eq_of_some hfirst, record_of_ok rfl]
    exact hsound.repeated hfirst
  | none =>
    cases hload : load key with
    | ok program =>
      rw [hsound.fetch_eq_of_ok hfirst hload, record_of_ok rfl]
      exact hsound.stored hfirst program
    | error error =>
      rw [hsound.fetch_eq_of_error hfirst hload, record_of_error rfl]
      exact hsound.skip

/-- A cache keeps what it should, whatever is asked of it. -/
theorem ask (hsound : h.Sound) (request : Request κ) : (h.ask request).Sound := by
  cases request with
  | get key load => exact hsound.record_fetch key load
  | clear => exact hsound.clear

/-- A cache keeps what it should, by induction on what is asked of it. -/
theorem foldl_ask (hsound : h.Sound) (requests : List (Request κ)) :
    (requests.foldl History.ask h).Sound := by
  induction requests generalizing h with
  | nil => exact hsound
  | cons request requests ih => exact ih (hsound.ask request)

/-- A cache that keeps what it should answers as its history demands. A new object differs from all
that were ever handed out, by its number. -/
theorem answers (hsound : h.Sound) (key : κ) (load : κ → Except CodecError Show) :
    h.Answers key (load key) (h.cache.fetch h.serial key load) := by
  cases hfirst : h.first? key with
  | some object =>
    rw [hsound.fetch_eq_of_some hfirst]
    constructor
    case loaded => simp [hfirst]
    case again =>
      intro object' hobject
      cases hfirst.symm.trans hobject
      exact ⟨rfl, rfl⟩
    case failed => exact fun hnone => nomatch hfirst.symm.trans hnone
    case fresh => exact fun hnone => nomatch hfirst.symm.trans hnone
  | none =>
    have hnew : ∀ other object, (other, object) ∈ h.past → object.serial ≠ h.serial :=
      fun other object hmem => Nat.ne_of_lt (hsound.numbered other object hmem)
    cases hload : load key with
    | ok program =>
      rw [hsound.fetch_eq_of_ok hfirst hload]
      constructor
      case loaded => simp [hfirst]
      case again => exact fun object hobject => nomatch hfirst.symm.trans hobject
      case failed => exact fun _ error herror => nomatch herror
      case fresh =>
        rintro _ _ ⟨⟩
        exact ⟨rfl, hnew⟩
    | error error =>
      rw [hsound.fetch_eq_of_error hfirst hload]
      constructor
      case loaded => simp [hfirst]
      case again => exact fun object hobject => nomatch hfirst.symm.trans hobject
      case failed =>
        rintro _ _ ⟨⟩
        exact ⟨rfl, rfl⟩
      case fresh => exact fun _ program hprogram => nomatch hprogram

/-- A key is kept exactly if it has been found. -/
theorem contains_iff (hsound : h.Sound) :
    h.cache.contains key = true ↔ ∃ object, (key, object) ∈ h.found := by
  rw [contains, hsound.get?, Option.isSome_iff_exists]
  exact exists_lookup_iff

/-- A cache that keeps what it should keeps one object for each key that has been found. -/
theorem kept (hsound : h.Sound) : h.Kept := by
  refine ⟨hsound.same, hsound.own, fun key => hsound.contains_iff, ?_⟩
  -- Both lists are without repetitions and hold the same keys.
  have hkeys : ∀ key, key ∈ h.cache.entries.map (·.1) ↔ key ∈ (h.found.map (·.1)).dedup := by
    intro key
    have hentries : (∃ object, (key, object) ∈ h.cache.entries) ↔
        ∃ object, (key, object) ∈ h.found := by
      rw [← exists_lookup_iff, ← hsound.contains_iff, contains, Option.isSome_iff_exists]
      rfl
    rw [List.mem_dedup]
    simpa only [List.mem_map, Prod.exists, exists_and_right, exists_eq_right] using hentries
  have hperm := (List.perm_ext_iff_of_nodup hsound.nodup (List.nodup_dedup _)).2 hkeys
  rw [size, ← hperm.length_eq, List.length_map]

end Sound

end History

end Cache

namespace FileCache

/-- The key under which the track of a file is kept. -/
def key? (settings : CacheSettings) (fs : FileSystem) (here : Location) (path : Path) :
    Except FileError Path :=
  if settings.canonicalizePaths then (fs.resolve here path).map .ofLocation
  else .ok path.normalise

/-- What may be asked of a cache of files. The files may be others each time. -/
inductive Request where
  | get (path : Path) (load : Path → Except CodecError Show)
  | load (fs : FileSystem) (here : Location) (path : Path)
  | clear

open Cache (History)

variable {settings : CacheSettings} {fs : FileSystem} {here : Location} {path : Path}

def ask (settings : CacheSettings) (h : History Path) : Request → History Path
  | .get path load =>
    h.record path.normalise (h.cache.fetch h.serial path.normalise fun _ => load path)
  | .load fs here path =>
    let answer := FileCache.load settings fs here h.cache h.serial path
    match key? settings fs here path with
    | .ok key => h.record key answer
    | .error _ => { h with cache := answer.cache, serial := h.serial + 1 }
  | .clear => h.clear

def after (settings : CacheSettings) (requests : List Request) : History Path :=
  requests.foldl (ask settings) .start

/-- A file that cannot be resolved has no key, so nothing is looked up. -/
theorem load_of_error {c : Cache Path} {serial : Nat} {error : FileError}
    (hkey : key? settings fs here path = .error error) :
    load settings fs here c serial path = ⟨c, false, .error (.file error)⟩ := by
  rw [key?] at hkey
  split at hkey
  case isFalse => cases hkey
  case isTrue hcanonical =>
    cases hresolve : fs.resolve here path with
    | ok location =>
      rw [hresolve] at hkey
      cases hkey
    | error error' =>
      rw [hresolve] at hkey
      cases hkey
      simp only [load, hcanonical, if_true, hresolve]

/-- A file that has a key is looked up under it. -/
theorem load_of_ok {c : Cache Path} {serial : Nat} {key : Path}
    (hkey : key? settings fs here path = .ok key) :
    load settings fs here c serial path = c.fetch serial key fun key =>
      Program.load fs here (if settings.canonicalizePaths then key else path) := by
  rw [key?] at hkey
  split at hkey
  case isFalse hcanonical =>
    cases hkey
    simp only [load, hcanonical]
    rfl
  case isTrue hcanonical =>
    cases hresolve : fs.resolve here path with
    | error error =>
      rw [hresolve] at hkey
      cases hkey
    | ok location =>
      rw [hresolve] at hkey
      cases hkey
      simp only [load, hcanonical, if_true, hresolve]

/-- The same goes for a cache of files: each request comes to a look-up, to clearing, or to
nothing. -/
theorem sound_ask {h : History Path} (hsound : h.Sound) (request : Request) :
    (ask settings h request).Sound := by
  cases request with
  | get path load => exact hsound.record_fetch path.normalise fun _ => load path
  | load fs here path =>
    rw [ask]
    cases hkey : key? settings fs here path with
    | error error =>
      rw [load_of_error hkey]
      exact hsound.skip
    | ok key =>
      rw [load_of_ok hkey]
      exact hsound.record_fetch key _
  | clear => exact hsound.clear

/-- A cache of files keeps what it should, by induction on what is asked of it. -/
theorem sound_foldl_ask {h : History Path} (hsound : h.Sound) (requests : List Request) :
    (requests.foldl (ask settings) h).Sound := by
  induction requests generalizing h with
  | nil => exact hsound
  | cons request requests ih => exact ih (sound_ask hsound request)

end FileCache

open Cache (History)

/-- A cache only remembers. Whatever has been asked of it, the next look-up of a key hands out the
object of the first one that has succeeded since the cache was cleared, and nothing is loaded if
there is one; a failed look-up leaves no trace. A file is looked up under the key of its path, if it
has one. -/
theorem Cache.answers_by_history :
    (∀ (κ : Type) [DecidableEq κ] (requests : List (Cache.Request κ)),
      let h := History.after requests
      h.Kept ∧ ∀ key load, h.Answers key (load key) (h.cache.fetch h.serial key load)) ∧
    ∀ (settings : CacheSettings) (requests : List FileCache.Request),
      let h := FileCache.after settings requests
      h.Kept ∧
      (∀ path (load : Path → Except CodecError Show),
        h.Answers path.normalise (load path)
          (h.cache.fetch h.serial path.normalise fun _ => load path)) ∧
      ∀ fs here path,
        match FileCache.key? settings fs here path with
        | .error error =>
          FileCache.load settings fs here h.cache h.serial path =
            ⟨h.cache, false, .error (.file error)⟩
        | .ok key =>
          h.Answers key
            (Program.load fs here (if settings.canonicalizePaths then key else path))
            (FileCache.load settings fs here h.cache h.serial path) := by
  constructor
  · intro κ _ requests h
    have hsound : h.Sound := History.Sound.start.foldl_ask requests
    exact ⟨hsound.kept, hsound.answers⟩
  · intro settings requests h
    have hsound : h.Sound := FileCache.sound_foldl_ask .start requests
    refine ⟨hsound.kept, fun path load => hsound.answers path.normalise fun _ => load path,
      fun fs here path => ?_⟩
    cases hkey : FileCache.key? settings fs here path with
    | error error => exact FileCache.load_of_error hkey
    | ok key =>
      simp only [FileCache.load_of_ok hkey]
      exact hsound.answers key fun key =>
        Program.load fs here (if settings.canonicalizePaths then key else path)

end LightShow
