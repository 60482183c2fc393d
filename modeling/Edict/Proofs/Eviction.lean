import Edict.Proofs.Caching

namespace Edict

/-! # What the cache keeps

A text that is run and was not kept is a miss if an instruction can be built from it.  Each miss is
kept, and when there is no room for it, the oldest one goes; whatever changes the meaning of a name
makes all of them go.  So the texts that are kept are the last misses since then, as many of them as
there is room for.

The cache has a table of the instructions and, beside it, the order in which they came.  The two
hold the same texts at all times (`Cache.Keeps`), so that the oldest text is always one of the
table, and dropping it makes the room that is needed.

Main statements:

* `Cache.Keeps.insert`: a miss is kept, in place of the oldest one if there is no room;
* `keeps_serve`, `keeps_serveAll`: one request, and a run of them, change what is kept by their
  misses and invalidations alone;
* `kept_eq_last_misses`: what is kept after any run of requests, and what the next one does to it.
-/

/-! ## Keys -/

namespace Table

variable {κ α : Type}

/-- The keys of a table, the one put in last first. -/
def keys (t : Table κ α) : List κ := t.entries.map (·.1)

theorem length_keys (t : Table κ α) : t.keys.length = t.size := List.length_map _

variable [DecidableEq κ]

theorem keys_erase (t : Table κ α) (key : κ) : (t.erase key).keys = t.keys.filter (· ≠ key) := by
  rw [keys, keys, List.filter_map]
  rfl

/-- A new entry is the first one, and replaces the one of its key. -/
theorem keys_insert (t : Table κ α) (key : κ) (a : α) :
    (t.insert key a).keys = key :: t.keys.filter (· ≠ key) := by
  rw [← keys_erase]
  rfl

theorem contains_iff_mem_keys {t : Table κ α} {key : κ} :
    t.contains key = true ↔ key ∈ t.keys := by
  rw [contains, find?, List.lookup_isSome_iff, keys]
  constructor
  · rintro ⟨entry, hmem, hkey⟩
    rw [eq_of_beq hkey]
    exact List.mem_map_of_mem hmem
  · intro hmem
    rcases List.mem_map.mp hmem with ⟨entry, hentry, rfl⟩
    exact ⟨entry, hentry, beq_self_eq_true _⟩

end Table

/-! ## Room for one more -/

namespace Cache

variable {α : Type} {capacity : Nat} {entries : Table String α} {order misses : List String}
  {c : Cache α}

/-- The order ends before there is room: it does not tell which entries are the oldest, and `makeRoom`
drops all of them. -/
inductive RunsDry (capacity : Nat) : Table String α → List String → Prop
  | nil {entries : Table String α} (hfull : capacity ≤ entries.size) : RunsDry capacity entries []
  | cons {entries : Table String α} {oldest : String} {order : List String}
      (hfull : capacity ≤ entries.size) (hrest : RunsDry capacity (entries.erase oldest) order) :
      RunsDry capacity entries (oldest :: order)

/-- Where there is room, nothing is dropped. -/
theorem makeRoom_of_lt (h : entries.size < capacity) (order : List String) :
    makeRoom capacity entries order = (entries, order) ∧ ¬RunsDry capacity entries order := by
  have hroom : ¬capacity ≤ entries.size := by omega
  constructor
  · cases order with
    | nil => exact if_neg hroom
    | cons oldest order => exact if_neg hroom
  · intro hdry
    cases hdry with
    | nil hfull => exact hroom hfull
    | cons hfull _ => exact hroom hfull

/-- Texts other than a given one stay when that one is left out. -/
theorem filter_ne_of_not_mem {text : String} {texts : List String} (h : text ∉ texts) :
    texts.filter (· ≠ text) = texts := by
  refine List.filter_eq_self.mpr fun other hmem => decide_eq_true ?_
  rintro rfl
  exact h hmem

/-- Where there is none, and the order holds the texts of the table, it is enough to drop the oldest
one. -/
theorem makeRoom_of_keys (hkeys : entries.keys = order.reverse) (hnodup : order.Nodup)
    (hlength : order.length ≤ capacity) (hcapacity : 0 < capacity) :
    (∃ entries', makeRoom capacity entries order
        = (entries', order.drop (order.length + 1 - capacity)) ∧
      entries'.keys = (order.drop (order.length + 1 - capacity)).reverse) ∧
    ¬RunsDry capacity entries order := by
  have hsize : entries.size = order.length := by
    rw [← Table.length_keys, hkeys, List.length_reverse]
  -- The two are of one size, so a table without room has an oldest text to drop, and only one.
  by_cases hfull : order.length = capacity
  · cases order with
    | nil =>
      rw [List.length_nil] at hfull
      omega
    | cons oldest order =>
      have hrest : (entries.erase oldest).keys = order.reverse := by
        have hold : oldest ∉ order.reverse := by
          rw [List.mem_reverse]
          exact (List.nodup_cons.mp hnodup).1
        rw [Table.keys_erase, hkeys, List.reverse_cons, List.filter_append,
          filter_ne_of_not_mem hold]
        simp
      have hshorter : (entries.erase oldest).size < capacity := by
        rw [← Table.length_keys, hrest, List.length_reverse]
        rw [List.length_cons] at hfull
        omega
      have hnone : capacity ≤ entries.size := by omega
      have hdrop : (oldest :: order).length + 1 - capacity = 1 := by omega
      rcases makeRoom_of_lt hshorter order with ⟨hmake, hdry⟩
      rw [hdrop, makeRoom, if_pos hnone, hmake]
      refine ⟨⟨_, rfl, hrest⟩, fun h => ?_⟩
      cases h with
      | cons _ h => exact hdry h
  · have hroom : entries.size < capacity := by omega
    have hdrop : order.length + 1 - capacity = 0 := by omega
    rcases makeRoom_of_lt hroom order with ⟨hmake, hdry⟩
    rw [hmake, hdrop]
    exact ⟨⟨_, rfl, hkeys⟩, hdry⟩

/-! ## The last misses -/

/-- The cache has room for `capacity` texts and keeps the last of the misses, as many as it has room
for: both in its table and in its order. -/
structure Keeps (capacity : Nat) (misses : List String) (c : Cache α) : Prop where
  room : c.capacity = capacity
  order : c.order = misses.drop (misses.length - capacity)
  keys : c.entries.keys = c.order.reverse
  nodup : c.order.Nodup

/-- As many texts are kept as there were misses, up to the capacity. -/
theorem Keeps.length_order (h : c.Keeps capacity misses) :
    c.order.length = min capacity misses.length := by
  rw [h.order, List.length_drop]
  omega

/-- Room is never looked for in vain. -/
theorem Keeps.not_runsDry (h : c.Keeps capacity misses) (hcapacity : 0 < capacity) :
    ¬RunsDry capacity c.entries c.order := by
  have hlength : c.order.length ≤ capacity := by
    rw [h.length_order]
    exact Nat.min_le_left _ _
  exact (makeRoom_of_keys h.keys h.nodup hlength hcapacity).2

/-- A new cache keeps nothing, after no misses. -/
theorem keeps_ofCapacity (capacity : Nat) : (ofCapacity capacity : Cache α).Keeps capacity [] :=
  ⟨rfl, List.drop_nil.symm, rfl, List.nodup_nil⟩

theorem Keeps.clear (h : c.Keeps capacity misses) : c.clear.Keeps capacity [] :=
  ⟨h.room, List.drop_nil.symm, rfl, List.nodup_nil⟩

/-- A text that is not kept is not in the order either. -/
theorem Keeps.not_mem_order (h : c.Keeps capacity misses) {text : String}
    (hnew : c.contains text = false) : text ∉ c.order := by
  intro hmem
  have hcontains : c.contains text = true := by
    rw [Cache.contains, Table.contains_iff_mem_keys, h.keys]
    exact List.mem_reverse.mpr hmem
  rw [hnew] at hcontains
  cases hcontains

/-- A miss is kept, in place of the oldest one if there is no room. -/
theorem Keeps.insert (h : c.Keeps capacity misses) {text : String} (hnew : c.contains text = false)
    (a : α) : (c.insert text a).Keeps capacity (misses ++ [text]) := by
  have hlength := h.length_order
  have hfresh := h.not_mem_order hnew
  rcases h with ⟨rfl, horder, hkeys, hnodup⟩
  by_cases hzero : c.capacity = 0
  · -- Without any room nothing is kept, which is the last none of the misses.
    rw [Cache.insert, if_pos hzero]
    refine ⟨rfl, ?_, hkeys, hnodup⟩
    rw [horder, hzero, Nat.sub_zero, Nat.sub_zero, List.drop_length, List.drop_length]
  · rcases makeRoom_of_keys hkeys hnodup (by omega) (Nat.pos_of_ne_zero hzero) with
      ⟨⟨entries, hmake, hrest⟩, -⟩
    have hgone : text ∉ c.order.drop (c.order.length + 1 - c.capacity) :=
      fun hmem => hfresh (List.mem_of_mem_drop hmem)
    rw [Cache.insert, if_neg hzero, hmake]
    constructor
    · rfl
    · -- What is left of the order is what is left of the misses if one more of them is dropped.
      have hcut : misses.length - c.capacity + (c.order.length + 1 - c.capacity)
          = (misses ++ [text]).length - c.capacity := by
        rw [List.length_append, List.length_singleton]
        omega
      have hle : (misses ++ [text]).length - c.capacity ≤ misses.length := by
        rw [List.length_append, List.length_singleton]
        omega
      rw [List.drop_append_of_le_length hle, ← hcut, ← List.drop_drop, ← horder]
    · rw [← List.mem_reverse] at hgone
      show (entries.insert text a).keys = _
      rw [Table.keys_insert, hrest, filter_ne_of_not_mem hgone, List.reverse_append]
      rfl
    · exact List.nodup_append.mpr ⟨hnodup.drop, List.nodup_singleton text, by
        rintro other hmem _ hself rfl
        rw [List.mem_singleton.mp hself] at hmem
        exact hgone hmem⟩

/-- Where anything can be kept, the new entry is. -/
theorem find?_insert_self (c : Cache α) (hcapacity : c.capacity ≠ 0) (text : String) (a : α) :
    (c.insert text a).find? text = some a := by
  rw [Cache.insert, if_neg hcapacity]
  exact (Table.find?_insert _ _ _ _).trans (if_pos rfl)

end Cache

/-! ## Instructions that are run -/

namespace Session

variable {σ τ α : Type} {text : String} {s : Session σ τ}

/-- What would come of building the text now. -/
def built (s : Session σ τ) (text : String) : Except Error (Instruction σ τ) :=
  ((s.interpreter.build text).run ⟨s.context, s.interpreter.output⟩).1

/-- Whatever is done with the context, the interpreter keeps what it has kept. -/
theorem cache_call (act : CallM σ τ α) (s : Session σ τ) :
    ((call act).run s).2.interpreter.cache = s.interpreter.cache := rfl

/-- A text that is kept, and one that no instruction can be built from, leave the cache alone,
whatever was to be done with the instruction. -/
theorem cache_of_not_miss (next : Instruction σ τ → CallM σ τ α)
    (h : s.interpreter.cache.contains text = true ∨ ∃ e, s.built text = .error e) :
    ((do call (next (← cachedInstruction text)) : SessionM σ τ α).run s).2.interpreter.cache
      = s.interpreter.cache := by
  rw [run_bind]
  cases hfind : s.interpreter.cache.find? text with
  | some kept =>
    rw [run_cachedInstruction_of_some hfind]
    exact cache_call _ _
  | none =>
    have hfresh : s.interpreter.cache.contains text = false := congrArg Option.isSome hfind
    rw [hfresh] at h
    rcases h with hcontains | ⟨e, hbuilt⟩
    · cases hcontains
    · rcases hrun : (s.interpreter.build text).run ⟨s.context, s.interpreter.output⟩
        with ⟨outcome, r⟩
      obtain rfl : outcome = .error e := (congrArg Prod.fst hrun).symm.trans hbuilt
      rw [run_cachedInstruction_of_none hfind, run_call hrun]

/-- A miss is put into the cache before anything is done with the instruction. -/
theorem cache_of_miss (next : Instruction σ τ → CallM σ τ α) {instruction : Instruction σ τ}
    (hfresh : s.interpreter.cache.contains text = false) (hbuilt : s.built text = .ok instruction) :
    ((do call (next (← cachedInstruction text)) : SessionM σ τ α).run s).2.interpreter.cache
      = s.interpreter.cache.insert text instruction := by
  have hfind : s.interpreter.cache.find? text = none :=
    Option.isNone_iff_eq_none.mp (Option.isSome_eq_false_iff.mp hfresh)
  rcases hrun : (s.interpreter.build text).run ⟨s.context, s.interpreter.output⟩ with ⟨outcome, r⟩
  obtain rfl : outcome = .ok instruction := (congrArg Prod.fst hrun).symm.trans hbuilt
  -- The cache files an instruction under its source, which is the text.
  obtain rfl : instruction.source = text := source_of_build hrun
  rw [run_bind, run_cachedInstruction_of_none hfind, run_call hrun]
  exact cache_call _ _

/-- An expression that is evaluated without an instruction is not kept. -/
theorem cache_evaluateExpression (t : NativeType σ) (text : String) (s : Session σ τ) :
    ((evaluateExpression t text).run s).2.interpreter.cache = s.interpreter.cache := by
  rw [evaluateExpression, call_bind]
  exact cache_call _ s

end Session

/-! ## Names that are removed -/

namespace Interpreter

variable {σ τ : Type}

/-- A function that is forgotten clears the cache, if it was known; so does a modifier. -/
theorem cache_unregisterFunction (name : String) (i : Interpreter σ τ) :
    (i.unregisterFunction name).2.cache
      = if i.functions.contains name then i.cache.clear else i.cache := by
  unfold unregisterFunction
  split
  · rfl
  · rfl

theorem cache_unregisterModifier (name : String) (i : Interpreter σ τ) :
    (i.unregisterModifier name).2.cache
      = if i.modifiers.contains name then i.cache.clear else i.cache := by
  unfold unregisterModifier
  split
  · rfl
  · rfl

end Interpreter

/-! ## Requests -/

/-- What is asked of an interpreter, or done to the contexts beside it. -/
inductive Workspace.Request (κ σ τ : Type) where
  | command (command : Command κ σ τ)
  | evaluateExpression (k : κ) (t : NativeType σ) (text : String)
  | build (k : κ) (text : String)
  | buildParts (k : κ) (function parameters modifiers : String)
  | buildFromParameters (k : κ) (function : String) (parameters : List String)
  /-- The host does something of its own, such as to run an instruction that it has built. -/
  | call (k : κ) (act : CallM σ τ Unit)

/-- What becomes of the texts that are kept. -/
inductive CacheEvent where
  /-- A text is run that was not kept, and an instruction is built from it. -/
  | miss (text : String)
  /-- A name has got another meaning, or all is to be forgotten. -/
  | invalidation

/-- The misses since the last invalidation, where `misses` are those before the event. -/
def CacheEvent.enter (misses : List String) : CacheEvent → List String
  | miss text => misses ++ [text]
  | invalidation => []

/-- The texts of the misses since the last invalidation, oldest first. -/
def recentMisses (events : List CacheEvent) : List String := events.foldl CacheEvent.enter []

/-- A cache that may have been cleared keeps what it should after the event, or after none. -/
theorem Cache.Keeps.clearIf {α : Type} {c : Cache α} {capacity : Nat} {misses : List String}
    (h : c.Keeps capacity misses) (known : Bool) :
    (if known then c.clear else c).Keeps capacity
      ((if known then some CacheEvent.invalidation else none).toList.foldl CacheEvent.enter
        misses) := by
  cases known with
  | true => exact h.clear
  | false => exact h

/-- The text of the instruction that the request runs, and the context that it is run against. -/
def Workspace.Request.text? {κ σ τ : Type} : Workspace.Request κ σ τ → Option (κ × String)
  | .command (.execute k text) => some (k, text)
  | .command (.executeAs k _ text) => some (k, text)
  | _ => none

namespace Workspace

variable {ι κ σ τ : Type} [DecidableEq ι] [DecidableEq κ] [Observer σ τ]

/-- Does what is asked for. -/
def serve (w : Workspace ι κ σ τ) : Request κ σ τ → Workspace ι κ σ τ
  | .command command => (w.step command).2
  | .evaluateExpression k t text => (w.onContext k (Session.evaluateExpression t text)).2
  | .build k text => (w.onContext k (Session.call (w.interpreter.build text))).2
  | .buildParts k function parameters modifiers =>
    (w.onContext k (Session.call (w.interpreter.buildParts function parameters modifiers))).2
  | .buildFromParameters k function parameters =>
    (w.onContext k (Session.call (w.interpreter.buildFromParameters function parameters))).2
  | .call k act => (w.onContext k (Session.call act)).2

/-- Does what is asked for, one request after the other. -/
def serveAll (w : Workspace ι κ σ τ) (requests : List (Request κ σ τ)) : Workspace ι κ σ τ :=
  requests.foldl serve w

/-- The interpreter with one of the contexts. -/
def session (w : Workspace ι κ σ τ) (k : κ) : Session σ τ := ⟨w.interpreter, w.context k⟩

/-- Whether running the text is a miss. -/
def miss? (w : Workspace ι κ σ τ) (k : κ) (text : String) : Option CacheEvent :=
  if w.interpreter.cache.contains text then none
  else match (w.session k).built text with
    | .ok _ => some (.miss text)
    | .error _ => none

/-- What the request does to the texts that are kept, if it does anything: any registration is an
invalidation, and so is a removal if there was something to remove. -/
def event? (w : Workspace ι κ σ τ) : Request κ σ τ → Option CacheEvent
  | .command (.registerFunction _) => some .invalidation
  | .command (.unregisterFunction name) =>
    if w.interpreter.functions.contains name then some .invalidation else none
  | .command (.registerModifier _) => some .invalidation
  | .command (.unregisterModifier name) =>
    if w.interpreter.modifiers.contains name then some .invalidation else none
  | .command .clearCache => some .invalidation
  | .command (.execute k text) => w.miss? k text
  | .command (.executeAs k _ text) => w.miss? k text
  | _ => none

/-- What the requests do to the texts that are kept, in their order. -/
def events (w : Workspace ι κ σ τ) : List (Request κ σ τ) → List CacheEvent
  | [] => []
  | request :: requests => (w.event? request).toList ++ (w.serve request).events requests

variable {w : Workspace ι κ σ τ} {request : Request κ σ τ} {capacity : Nat} {misses : List String}

/-- A text that is kept, and one that no instruction can be built from, change nothing. -/
theorem cache_serve_of_not_miss {k : κ} {text : String} (hrequest : request.text? = some (k, text))
    (h : w.interpreter.cache.contains text = true ∨ ∃ e, (w.session k).built text = .error e) :
    (w.serve request).interpreter.cache = w.interpreter.cache := by
  unfold Request.text? at hrequest
  split at hrequest
  · cases hrequest
    exact Session.cache_of_not_miss Instruction.execute h
  · next t _ =>
    cases hrequest
    exact Session.cache_of_not_miss (·.executeAs t) h
  · cases hrequest

/-- A miss is kept, however running the instruction ends. -/
theorem cache_serve_of_miss {k : κ} {text : String} (hrequest : request.text? = some (k, text))
    {instruction : Instruction σ τ} (hfresh : w.interpreter.cache.contains text = false)
    (hbuilt : (w.session k).built text = .ok instruction) :
    (w.serve request).interpreter.cache = w.interpreter.cache.insert text instruction := by
  unfold Request.text? at hrequest
  split at hrequest
  · cases hrequest
    exact Session.cache_of_miss (s := w.session k) Instruction.execute hfresh hbuilt
  · next t _ =>
    cases hrequest
    exact Session.cache_of_miss (s := w.session k) (·.executeAs t) hfresh hbuilt
  · cases hrequest

/-- Running a text keeps it if it is a miss, and changes nothing otherwise. -/
theorem keeps_serve_text (h : w.interpreter.cache.Keeps capacity misses) {k : κ} {text : String}
    (hrequest : request.text? = some (k, text)) :
    (w.serve request).interpreter.cache.Keeps capacity
      ((w.miss? k text).toList.foldl CacheEvent.enter misses) := by
  unfold miss?
  split
  · next hkept =>
    rw [cache_serve_of_not_miss hrequest (.inl hkept)]
    exact h
  · next hfresh =>
    rw [Bool.not_eq_true] at hfresh
    split
    · next instruction hbuilt =>
      rw [cache_serve_of_miss hrequest hfresh hbuilt]
      exact h.insert hfresh instruction
    · next e hbuilt =>
      rw [cache_serve_of_not_miss hrequest (.inr ⟨e, hbuilt⟩)]
      exact h

/-- What is kept after a request is what its event, if there is one, makes of what was kept. -/
theorem keeps_serve (h : w.interpreter.cache.Keeps capacity misses) (request : Request κ σ τ) :
    (w.serve request).interpreter.cache.Keeps capacity
      ((w.event? request).toList.foldl CacheEvent.enter misses) := by
  -- Only running a text can be a miss, and only changes of what is registered clear the cache.
  cases request with
  | command command =>
    cases command with
    | registerFunction f => exact h.clear
    | unregisterFunction name =>
      have hcache : (w.serve (.command (.unregisterFunction name))).interpreter.cache = _ :=
        Interpreter.cache_unregisterFunction name w.interpreter
      rw [hcache]
      exact h.clearIf _
    | registerModifier m => exact h.clear
    | unregisterModifier name =>
      have hcache : (w.serve (.command (.unregisterModifier name))).interpreter.cache = _ :=
        Interpreter.cache_unregisterModifier name w.interpreter
      rw [hcache]
      exact h.clearIf _
    | clearCache => exact h.clear
    | execute k text => exact keeps_serve_text h rfl
    | executeAs k t text => exact keeps_serve_text h rfl
    | change k f => exact h
  | evaluateExpression k t text =>
    show ((Session.evaluateExpression t text).run (w.session k)).2.interpreter.cache.Keeps _ _
    rw [Session.cache_evaluateExpression]
    exact h
  | build k text => exact h
  | buildParts k function parameters modifiers => exact h
  | buildFromParameters k function parameters => exact h
  | call k act => exact h

/-- What is kept after a run of requests is what their events make of what was kept. -/
theorem keeps_serveAll (h : w.interpreter.cache.Keeps capacity misses)
    (requests : List (Request κ σ τ)) :
    (w.serveAll requests).interpreter.cache.Keeps capacity
      ((w.events requests).foldl CacheEvent.enter misses) := by
  induction requests generalizing w misses with
  | nil => exact h
  | cons request requests ih =>
    rw [events, List.foldl_append]
    exact ih (keeps_serve h request)

end Workspace

/-- However many texts an interpreter has room for, and whatever it is asked to do, the texts that
it keeps are the last misses since the last invalidation, as many of them as there is room for,
oldest first.  Its table and the order that it drops them in hold the same texts, each of them once.

This is so after every request, as any run is the start of a longer one.  What the next request does
to a text that is run: a text that is kept, and one that cannot be built, change nothing, and one
that is built anew is kept, whether the instruction then fails or not.  The order never ends before
there is room for it. -/
theorem kept_eq_last_misses {ι κ σ τ : Type} [DecidableEq ι] [DecidableEq κ] [Observer σ τ]
    (config : Config) (hostOf : κ → ι) (worlds : ι → World σ) (contexts : κ → Context σ τ)
    (requests : List (Workspace.Request κ σ τ)) :
    let start : Workspace ι κ σ τ := ⟨.ofConfig config, hostOf, worlds, contexts⟩
    let w := start.serveAll requests
    let cache := w.interpreter.cache
    let misses := recentMisses (start.events requests)
    cache.order = misses.drop (misses.length - config.cacheCapacity) ∧
      cache.order.length = min config.cacheCapacity misses.length ∧
      cache.order.Nodup ∧ cache.entries.keys.Perm cache.order ∧
      cache.size ≤ config.cacheCapacity ∧
      (0 < config.cacheCapacity →
        ¬Cache.RunsDry config.cacheCapacity cache.entries cache.order) ∧
      ∀ (request : Workspace.Request κ σ τ) (k : κ) (text : String), request.text? = some (k, text) →
        let cache' := (w.serve request).interpreter.cache
        (cache.contains text = true → cache' = cache) ∧
        (∀ e, (w.session k).built text = .error e → cache' = cache) ∧
        (∀ instruction, cache.contains text = false →
          (w.session k).built text = .ok instruction →
            cache' = cache.insert text instruction ∧
            (0 < config.cacheCapacity → cache'.find? text = some instruction)) := by
  intro start w cache misses
  -- The invariant says it all; the rest are its consequences.
  have hkeeps : cache.Keeps config.cacheCapacity misses :=
    Workspace.keeps_serveAll (w := start) (Cache.keeps_ofCapacity config.cacheCapacity) requests
  have hlength := hkeeps.length_order
  have hperm : cache.entries.keys.Perm cache.order := by
    rw [hkeeps.keys]
    exact cache.order.reverse_perm
  have hsize : cache.size ≤ config.cacheCapacity := by
    rw [Cache.size, ← Table.length_keys, hperm.length_eq, hlength]
    exact Nat.min_le_left _ _
  refine ⟨hkeeps.order, hlength, hkeeps.nodup, hperm, hsize, hkeeps.not_runsDry, ?_⟩
  intro request k text hrequest
  refine ⟨fun hkept => Workspace.cache_serve_of_not_miss hrequest (.inl hkept),
    fun e hbuilt => Workspace.cache_serve_of_not_miss hrequest (.inr ⟨e, hbuilt⟩),
    fun instruction hfresh hbuilt => ?_⟩
  have hcache := Workspace.cache_serve_of_miss hrequest hfresh hbuilt
  refine ⟨hcache, fun hcapacity => ?_⟩
  show (w.serve request).interpreter.cache.find? text = some instruction
  rw [hcache]
  refine Cache.find?_insert_self cache ?_ text instruction
  rw [hkeeps.room]
  exact hcapacity.ne'

namespace TwoTexts

/-- An interpreter with room for two texts, and one context without names. -/
def start : Workspace Unit Unit Unit Notes where
  interpreter := .ofConfig { cacheCapacity := 2 }
  hostOf _ := ()
  worlds _ := ⟨(), 0⟩
  contexts _ := ⟨⟨⟨{}, [], .empty⟩, 0, .empty, ⟨.ofSize ⟨8, 1⟩, ⟨(), 0⟩⟩⟩, none⟩

/-- The request to run a text. -/
def run (text : String) : Workspace.Request Unit Unit Notes := .command (.execute () text)

/-- A text is forgotten, two are run, the first of them once more, one cannot be built, and one fails
for want of a name. -/
def requests : List (Workspace.Request Unit Unit Notes) :=
  [run "Evaluate: 0", .command .clearCache, run "Evaluate: 1", run "Evaluate: 2", run "Evaluate: 1",
    run "Missing: 3", run "Evaluate: missing"]

/-- What is left behind. -/
def finish : Workspace Unit Unit Unit Notes := start.serveAll requests

/-- The text that was run twice goes for the one that failed, which is kept all the same. -/
theorem kept_eq_last_misses_evicted :
    let cache := finish.interpreter.cache
    recentMisses (start.events requests) = ["Evaluate: 1", "Evaluate: 2", "Evaluate: missing"] ∧
      cache.order = ["Evaluate: 2", "Evaluate: missing"] ∧
      cache.entries.keys.Perm ["Evaluate: 2", "Evaluate: missing"] ∧
      ¬Cache.RunsDry 2 cache.entries cache.order ∧
      (finish.serve (run "Missing: 3")).interpreter.cache = cache ∧
      (finish.serve (run "Evaluate: 2")).interpreter.cache = cache ∧
      ∃ instruction,
        (finish.serve (run "Evaluate: 4 + missing")).interpreter.cache.find? "Evaluate: 4 + missing"
          = some instruction := by
  have hmisses : recentMisses (start.events requests)
      = ["Evaluate: 1", "Evaluate: 2", "Evaluate: missing"] := by decide +kernel
  have hkept : finish.interpreter.cache.contains "Evaluate: 2" = true := by decide +kernel
  have hfresh : finish.interpreter.cache.contains "Evaluate: 4 + missing" = false := by
    decide +kernel
  have hfailed : ∃ e, (finish.session ()).built "Missing: 3" = .error e := by
    have hfails : ((finish.session ()).built "Missing: 3").toBool = false := by decide +kernel
    cases hbuilt : (finish.session ()).built "Missing: 3" with
    | error e => exact ⟨e, rfl⟩
    | ok instruction =>
      rw [hbuilt] at hfails
      cases hfails
  have hmissed : ∃ instruction,
      (finish.session ()).built "Evaluate: 4 + missing" = .ok instruction := by
    have hsucceeds : ((finish.session ()).built "Evaluate: 4 + missing").toBool = true := by
      decide +kernel
    cases hbuilt : (finish.session ()).built "Evaluate: 4 + missing" with
    | error e =>
      rw [hbuilt] at hsucceeds
      cases hsucceeds
    | ok instruction => exact ⟨instruction, rfl⟩
  have hroom : 0 < ({ cacheCapacity := 2 } : Config).cacheCapacity := Nat.zero_lt_two
  rcases hfailed with ⟨e, hfailed⟩
  rcases hmissed with ⟨instruction, hmissed⟩
  rcases kept_eq_last_misses { cacheCapacity := 2 } start.hostOf start.worlds start.contexts
    requests with ⟨horder, -, -, hperm, -, hdry, hnext⟩
  have horder' : finish.interpreter.cache.order = ["Evaluate: 2", "Evaluate: missing"] :=
    horder.trans (congrArg (fun misses => misses.drop (misses.length - 2)) hmisses)
  have hperm' : finish.interpreter.cache.entries.keys.Perm ["Evaluate: 2", "Evaluate: missing"] := by
    rw [← horder']
    exact hperm
  exact ⟨hmisses, horder', hperm', hdry hroom, (hnext (run "Missing: 3") () _ rfl).2.1 e hfailed,
    (hnext (run "Evaluate: 2") () _ rfl).1 hkept, instruction,
    ((hnext (run "Evaluate: 4 + missing") () _ rfl).2.2 instruction hfresh hmissed).2 hroom⟩

end TwoTexts

end Edict
