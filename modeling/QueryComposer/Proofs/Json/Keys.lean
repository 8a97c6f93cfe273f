import QueryComposer.Json.Reader
import QueryComposer.Proofs.Json.Names

/-!
# Objects that were read have no key twice

A text may repeat a key in an object, but the value that is read of it does not: the reader puts
entries in by their key, and different keys get different names. So every value that was read is a
tree of maps, at every depth. The proof follows the reader token by token, with the values that are
still open in its frames.

## Main definitions

* `Json.HasDistinctKeys` holds of the values in which no object has a key twice.

## Main results

* `Json.hasDistinctKeys_of_read?`: what was read has distinct keys.
-/

namespace QueryComposer.Json

/-- No object in the value has a key twice. -/
inductive HasDistinctKeys : Json → Prop where
  | null : HasDistinctKeys .null
  | bool (b : Bool) : HasDistinctKeys (.bool b)
  | number (n : Number) : HasDistinctKeys (.number n)
  | string (s : String) : HasDistinctKeys (.string s)
  | array {vs : List Json} : (∀ v ∈ vs, HasDistinctKeys v) → HasDistinctKeys (.array vs)
  | object {es : List (String × Json)} : (Entries.keys es).Nodup →
      (∀ e ∈ es, HasDistinctKeys e.2) → HasDistinctKeys (.object es)

theorem hasDistinctKeys_object_iff {es : List (String × Json)} :
    HasDistinctKeys (.object es) ↔
      (Entries.keys es).Nodup ∧ ∀ e ∈ es, HasDistinctKeys e.2 :=
  ⟨fun | .object hkeys hes => ⟨hkeys, hes⟩, fun h => .object h.1 h.2⟩

/-! ### Atoms -/

namespace Token

/-- The value that the token holds, if it holds one, has distinct keys. -/
def IsSound (t : Token) : Prop := ∀ v, t = .atom v → HasDistinctKeys v

theorem hasDistinctKeys_of_atom? {word : List Char} {v : Json} (h : atom? word = some v) :
    HasDistinctKeys v := by
  unfold atom? at h
  split at h
  · cases h
    exact .null
  split at h
  · cases h
    exact .bool true
  split at h
  · cases h
    exact .bool false
  · obtain ⟨n, -, rfl⟩ := Option.map_eq_some_iff.mp h
    exact .number n

theorem isSound_of_begin? {c : Char} {ts : List Token} {m : Mode} (h : begin? c = some (ts, m)) :
    ∀ t ∈ ts, t.IsSound := by
  unfold begin? at h
  split at h
  · cases h
    exact nofun
  split at h
  · cases h
    exact nofun
  split at h
  · cases h
    exact nofun
  · obtain ⟨t, ht, heq⟩ := Option.map_eq_some_iff.mp h
    cases heq
    intro t' ht' v hv
    rw [List.mem_singleton.mp ht'] at hv
    subst hv
    unfold punctuation? at ht
    split at ht <;> cases ht

theorem isSound_of_step {m m' : Mode} {c : Char} {ts : List Token}
    (h : step m c = some (ts, m')) : ∀ t ∈ ts, t.IsSound := by
  cases m with
  | between => exact isSound_of_begin? h
  | word w =>
    rw [step] at h
    split at h
    · cases h
      exact nofun
    · obtain ⟨v, hv, h⟩ := Option.bind_eq_some_iff.mp h
      obtain ⟨⟨us, m''⟩, hus, h⟩ := Option.bind_eq_some_iff.mp h
      cases h
      rw [List.forall_mem_cons]
      refine ⟨fun v' hv' => ?_, isSound_of_begin? hus⟩
      cases hv'
      exact hasDistinctKeys_of_atom? hv
  | quoted a =>
    rw [step] at h
    split at h
    · cases h
      rw [List.forall_mem_singleton]
      exact nofun
    split at h
    · cases h
      exact nofun
    split at h
    · cases h
    · cases h
      exact nofun
  | escaped a =>
    rw [step] at h
    split at h
    · cases h
      exact nofun
    · obtain ⟨c', -, heq⟩ := Option.map_eq_some_iff.mp h
      cases heq
      exact nofun
  | unit a seen value =>
    obtain ⟨d, -, h⟩ := Option.bind_eq_some_iff.mp h
    split at h
    · cases h
      exact nofun
    · cases h
      exact nofun

theorem isSound_of_run {m m' : Mode} {cs : List Char} {ts : List Token}
    (h : scanner.run m cs = some (ts, m')) : ∀ t ∈ ts, t.IsSound := by
  induction cs generalizing m ts with
  | nil =>
    cases h
    exact nofun
  | cons c cs ih =>
    rw [Text.Scanner.run_cons] at h
    obtain ⟨⟨us, m''⟩, hus, h⟩ := Option.bind_eq_some_iff.mp h
    obtain ⟨⟨vs, m'''⟩, hvs, heq⟩ := Option.map_eq_some_iff.mp h
    cases heq
    rw [List.forall_mem_append]
    exact ⟨isSound_of_step hus, ih hvs⟩

theorem isSound_of_tokens {cs : List Char} {ts : List Token} (h : scanner.tokens cs = some ts) :
    ∀ t ∈ ts, t.IsSound := by
  rw [Text.Scanner.tokens_eq] at h
  obtain ⟨⟨us, m⟩, hus, h⟩ := Option.bind_eq_some_iff.mp h
  obtain ⟨vs, hvs, rfl⟩ := Option.map_eq_some_iff.mp h
  rw [List.forall_mem_append]
  refine ⟨isSound_of_run hus, ?_⟩
  have hvs' : finish m = some vs := hvs
  cases m with
  | between =>
    cases hvs'
    exact nofun
  | word w =>
    obtain ⟨v, hv, rfl⟩ := Option.map_eq_some_iff.mp hvs'
    rw [List.forall_mem_singleton]
    intro v' hv'
    cases hv'
    exact hasDistinctKeys_of_atom? hv
  | _ => cases hvs'

end Token

/-! ### The reader -/

namespace Reader

/-- What was read of an open object: no key came twice, and the values have distinct keys. -/
structure AreSound (done : List (Text.Wide × Json)) : Prop where
  keys : (Entries.keys done).Nodup
  values : ∀ e ∈ done, HasDistinctKeys e.2

theorem AreSound.nil : AreSound [] := ⟨List.nodup_nil, nofun⟩

theorem AreSound.put {done : List (Text.Wide × Json)} (h : AreSound done) {v : Json}
    (hv : HasDistinctKeys v) (key : Text.Wide) : AreSound (Entries.put key v done) := by
  refine ⟨Entries.nodup_keys_put h.keys, fun e he => ?_⟩
  rcases Entries.mem_put he with rfl | he
  · exact hv
  · exact h.values e he

theorem AreSound.hasDistinctKeys {done : List (Text.Wide × Json)} (h : AreSound done) :
    HasDistinctKeys (.object (named done)) := by
  refine .object (nodup_keys_named h.keys) fun e he => ?_
  obtain ⟨key, hmem⟩ := exists_mem_of_mem_nameEntries he
  exact h.values _ hmem

/-- What was read of an open list or object has distinct keys. -/
def Frame.IsSound : Frame → Prop
  | .items reversed => ∀ v ∈ reversed, HasDistinctKeys v
  | .entries done _ => AreSound done

/-- Everything that was read so far has distinct keys. -/
def State.IsSound : State → Prop
  | .value fs => ∀ f ∈ fs, f.IsSound
  | .firstItem fs => ∀ f ∈ fs, f.IsSound
  | .afterItem reversed fs => (∀ v ∈ reversed, HasDistinctKeys v) ∧ ∀ f ∈ fs, f.IsSound
  | .firstKey fs => ∀ f ∈ fs, f.IsSound
  | .key done fs => AreSound done ∧ ∀ f ∈ fs, f.IsSound
  | .colon done _ fs => AreSound done ∧ ∀ f ∈ fs, f.IsSound
  | .afterEntry done fs => AreSound done ∧ ∀ f ∈ fs, f.IsSound
  | .finished v => HasDistinctKeys v

theorem isSound_complete {v : Json} (hv : HasDistinctKeys v) {fs : List Frame}
    (hfs : ∀ f ∈ fs, f.IsSound) : (complete v fs).IsSound := by
  cases fs with
  | nil => exact hv
  | cons f fs =>
    obtain ⟨hf, hrest⟩ := List.forall_mem_cons.mp hfs
    cases f with
    | items reversed => exact ⟨List.forall_mem_cons.mpr ⟨hv, hf⟩, hrest⟩
    | entries done key => exact ⟨AreSound.put hf hv key, hrest⟩

theorem isSound_of_begin? {t : Token} (ht : t.IsSound) {fs : List Frame}
    (hfs : ∀ f ∈ fs, f.IsSound) {st : State} (h : begin? fs t = some st) : st.IsSound := by
  cases t with
  | openBracket =>
    cases h
    exact hfs
  | openBrace =>
    cases h
    exact hfs
  | text s =>
    cases h
    exact isSound_complete (.string s.shown) hfs
  | atom v =>
    cases h
    exact isSound_complete (ht v rfl) hfs
  | _ => cases h

/-- **One token.** Nothing that is read repeats a key. -/
theorem isSound_of_step {t : Token} (ht : t.IsSound) {st st' : State} (hst : st.IsSound)
    (h : step st t = some st') : st'.IsSound := by
  have hempty : HasDistinctKeys (.object []) := .object List.nodup_nil nofun
  have hnone : ∀ v ∈ ([] : List Json), HasDistinctKeys v := nofun
  cases st with
  | value fs => exact isSound_of_begin? ht hst h
  | firstItem fs =>
    by_cases hclose : t = .closeBracket
    · subst hclose
      cases h
      exact isSound_complete (.array hnone) hst
    · have hbegin : begin? (.items [] :: fs) t = some st' := by
        cases t with
        | closeBracket => exact absurd rfl hclose
        | _ => exact h
      have hitems : (Frame.items []).IsSound := hnone
      exact isSound_of_begin? ht (List.forall_mem_cons.mpr ⟨hitems, hst⟩) hbegin
  | afterItem reversed fs =>
    cases t with
    | closeBracket =>
      cases h
      refine isSound_complete (.array fun v hv => ?_) hst.2
      exact hst.1 v (List.mem_reverse.mp hv)
    | comma =>
      cases h
      exact List.forall_mem_cons.mpr ⟨hst.1, hst.2⟩
    | _ => cases h
  | firstKey fs =>
    cases t with
    | closeBrace =>
      cases h
      exact isSound_complete hempty hst
    | text k =>
      cases h
      exact ⟨.nil, hst⟩
    | _ => cases h
  | key done fs =>
    cases t with
    | text k =>
      cases h
      exact hst
    | _ => cases h
  | colon done k fs =>
    cases t with
    | colon =>
      cases h
      exact List.forall_mem_cons.mpr ⟨hst.1, hst.2⟩
    | _ => cases h
  | afterEntry done fs =>
    cases t with
    | closeBrace =>
      cases h
      exact isSound_complete hst.1.hasDistinctKeys hst.2
    | comma =>
      cases h
      exact hst
    | _ => cases h
  | finished v => cases h

theorem isSound_of_foldlM {ts : List Token} (hts : ∀ t ∈ ts, t.IsSound) {st st' : State}
    (hst : st.IsSound) (h : ts.foldlM step st = some st') : st'.IsSound := by
  induction ts generalizing st with
  | nil =>
    cases h
    exact hst
  | cons t ts ih =>
    obtain ⟨ht, hts⟩ := List.forall_mem_cons.mp hts
    rw [List.foldlM_cons] at h
    obtain ⟨st'', hstep, h⟩ := Option.bind_eq_some_iff.mp h
    exact ih hts (isSound_of_step ht hst hstep) h

end Reader

/-- **What was read has distinct keys.** -/
theorem hasDistinctKeys_of_read? {cs : List Char} {v : Json} (h : read? cs = some v) :
    HasDistinctKeys v := by
  obtain ⟨ts, hts, h⟩ := Option.bind_eq_some_iff.mp h
  obtain ⟨st, hst, h⟩ := Option.bind_eq_some_iff.mp h
  have hstart : (Reader.State.value []).IsSound := nofun
  have hsound := Reader.isSound_of_foldlM (Token.isSound_of_tokens hts) hstart hst
  cases st with
  | finished w =>
    cases h
    exact hsound
  | _ => cases h

end QueryComposer.Json
