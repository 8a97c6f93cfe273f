import QueryComposer.Json.Printer
import QueryComposer.Json.Reader
import QueryComposer.Proofs.Json.Names

/-!
# Values that are read back

What is written here are texts, lists and objects. Such a value is read back as it was, provided
that no object has a key twice. The text is cut into tokens by one machine, and the tokens are put
together by another. The pieces of a text end between tokens, so that both machines can be followed
from piece to piece at once: a piece leads the reader from one state to the next.

Inside quotes the unit of the argument is a character. It is written as itself, as an escape of two
characters, or as one or two code units of four digits each, and in each case the machine ends up
with exactly that character.

## Main definitions

* `IsTextual` holds of the values made of texts, lists and objects without repeated keys.
* `Reader.Leads` says where a piece of text leads the reader.

## Main results

* `run_quote`: a text between quotes is one token.
* `Reader.leads_write`: what is written for a value leads to where the value is complete.
* `read?_write`: the value is read back.
-/

namespace QueryComposer.Json

open Token

/-- Texts, and lists and objects of them in which no key is repeated. -/
inductive IsTextual : Json → Prop where
  | string (s : String) : IsTextual (.string s)
  | array {vs : List Json} : (∀ v ∈ vs, IsTextual v) → IsTextual (.array vs)
  | object {es : List (String × Json)} : (Entries.keys es).Nodup →
      (∀ e ∈ es, IsTextual e.2) → IsTextual (.object es)

/-! ### Characters -/

section Characters

variable {m m' m'' : Mode} {xs ys : List Char} {ts us : List Token}

theorem run_append_of_some (hx : scanner.run m xs = some (ts, m'))
    (hy : scanner.run m' ys = some (us, m'')) :
    scanner.run m (xs ++ ys) = some (ts ++ us, m'') := by
  rw [Text.Scanner.run_append, hx, Option.bind_some, hy, Option.map_some]

theorem run_cons_of_some {c : Char} (hc : step m c = some (ts, m'))
    (hy : scanner.run m' ys = some (us, m'')) :
    scanner.run m (c :: ys) = some (ts ++ us, m'') := by
  have hstep : scanner.step m c = some (ts, m') := hc
  rw [Text.Scanner.run_cons, hstep, Option.bind_some, hy, Option.map_some]

theorem hexValue?_digit {n : Nat} (h : n < 16) : hexValue? (Text.digit n) = some n := by
  revert n
  decide

/-- Four digits after the mark of a code unit are the unit. -/
theorem run_escapeUnit {u : Nat} (hu : u < 0x10000) (a : Text.Assembly) :
    scanner.run (.quoted a) (escapeUnit u) = some ([], .quoted (a.pushUnit u)) := by
  have hdigit : ∀ n, hexValue? (Text.digit (n % 16)) = some (n % 16) :=
    fun n => hexValue?_digit (Nat.mod_lt _ (by decide))
  have hvalue : 16 * (16 * (16 * (16 * 0 + u / 16 / 16 / 16 % 16) + u / 16 / 16 % 16) +
      u / 16 % 16) + u % 16 = u := by omega
  have hdigits : Text.digits 16 4 u = [Text.digit (u / 16 / 16 / 16 % 16),
      Text.digit (u / 16 / 16 % 16), Text.digit (u / 16 % 16), Text.digit (u % 16)] := rfl
  have hstep : ∀ seen value n, seen < 3 →
      step (.unit a seen value) (Text.digit (n % 16)) =
        some ([], .unit a (seen + 1) (16 * value + n % 16)) := by
    intro seen value n hseen
    simp [step, hdigit, hseen]
  have hlast : ∀ value n, step (.unit a 3 value) (Text.digit (n % 16)) =
      some ([], .quoted (a.pushUnit (16 * value + n % 16))) := by
    intro value n
    simp [step, hdigit]
  have hfour := run_cons_of_some (hlast (16 * (16 * (16 * 0 + u / 16 / 16 / 16 % 16) +
    u / 16 / 16 % 16) + u / 16 % 16) u) (Text.Scanner.run.eq_1 scanner _)
  rw [hvalue] at hfour
  have hrest := run_cons_of_some (hstep 0 _ _ (by decide)) (run_cons_of_some
    (hstep 1 _ _ (by decide)) (run_cons_of_some (hstep 2 _ _ (by decide)) hfour))
  have hslash : step (.quoted a) '\\' = some ([], .escaped a) := rfl
  have hmark : step (.escaped a) 'u' = some ([], .unit a 0 0) := rfl
  rw [escapeUnit, hdigits]
  exact run_cons_of_some hslash (run_cons_of_some hmark hrest)

/-- The code units of a character are put together to the character. -/
theorem run_escapeUnits (c : Char) (rs : Text.Wide) :
    scanner.run (.quoted ⟨rs, none⟩) ((Text.units c).flatMap escapeUnit) =
      some ([], .quoted ⟨.char c :: rs, none⟩) := by
  have hbound : c.toNat < 0x110000 := by
    have := c.valid
    simp only [UInt32.isValidChar, Nat.isValidChar, Char.toNat_val] at this
    omega
  rw [Text.units]
  split
  · next hsmall =>
    have hhigh : Text.isHighHalf c.toNat = false ∧ Text.isLowHalf c.toNat = false := by
      have := c.valid
      simp only [UInt32.isValidChar, Nat.isValidChar, Char.toNat_val] at this
      simp only [Text.isHighHalf, Text.isLowHalf, Bool.and_eq_false_iff, decide_eq_false_iff_not]
      omega
    have hunit : Text.Assembly.pushUnit ⟨rs, none⟩ c.toNat = ⟨.char c :: rs, none⟩ := by
      simp [Text.Assembly.pushUnit, Text.Place.ofUnit, hhigh, Text.Assembly.put,
        Text.Assembly.settle, Char.ofNat_toNat]
    rw [List.flatMap_singleton, run_escapeUnit hsmall, hunit]
  · next hlarge =>
    have hhigh : Text.isHighHalf (0xD800 + (c.toNat - 0x10000) / 0x400) = true := by
      simp only [Text.isHighHalf, Bool.and_eq_true, decide_eq_true_eq]
      omega
    have hlow : Text.isLowHalf (0xDC00 + (c.toNat - 0x10000) % 0x400) = true := by
      simp only [Text.isLowHalf, Bool.and_eq_true, decide_eq_true_eq]
      omega
    have hfirst := run_escapeUnit (u := 0xD800 + (c.toNat - 0x10000) / 0x400) (by omega) ⟨rs, none⟩
    have hsecond := run_escapeUnit (u := 0xDC00 + (c.toNat - 0x10000) % 0x400) (by omega)
      ⟨rs, some (0xD800 + (c.toNat - 0x10000) / 0x400)⟩
    simp only [Text.Assembly.pushUnit, hhigh, hlow, if_true,
      Text.joinHalves_units (Nat.le_of_not_lt hlarge)] at hfirst hsecond
    rw [List.flatMap_cons, List.flatMap_singleton]
    exact run_append_of_some hfirst hsecond

/-- One character, in whichever way it is written. -/
theorem run_escape (c : Char) (rs : Text.Wide) :
    scanner.run (.quoted ⟨rs, none⟩) (escape c) = some ([], .quoted ⟨.char c :: rs, none⟩) := by
  rw [escape]
  split
  · next h => subst h; rfl
  split
  · next h => subst h; rfl
  split
  · next h => subst h; rfl
  split
  · next h => subst h; rfl
  split
  · next h => subst h; rfl
  split
  · next h => subst h; rfl
  split
  · next h => subst h; rfl
  split
  · next hquote hslash _ _ _ _ _ hprintable =>
    have hstep : step (.quoted ⟨rs, none⟩) c = some ([], .quoted ⟨.char c :: rs, none⟩) := by
      rw [step, if_neg hquote, if_neg hslash, if_neg (Nat.not_lt.mpr hprintable.1)]
      rfl
    exact run_cons_of_some hstep rfl
  · exact run_escapeUnits c rs

theorem run_escapes (cs : List Char) (rs : Text.Wide) :
    scanner.run (.quoted ⟨rs, none⟩) (cs.flatMap escape) =
      some ([], .quoted ⟨(cs.map .char).reverse ++ rs, none⟩) := by
  induction cs generalizing rs with
  | nil => rfl
  | cons c cs ih =>
    rw [List.flatMap_cons, List.map_cons, List.reverse_cons, List.append_assoc,
      List.singleton_append]
    exact run_append_of_some (run_escape c rs) (ih (.char c :: rs))

/-- **A text between quotes is one token**, whatever characters it has. -/
theorem run_quote (s : String) :
    scanner.run .between (quote s) = some ([.text (.ofString s)], .between) := by
  have hopen : step .between '"' = some ([], .quoted ⟨[], none⟩) := rfl
  have hclose : step (.quoted ⟨(s.toList.map .char).reverse, none⟩) '"' =
      some ([.text (.ofString s)], .between) := by
    simp [step, Text.Assembly.finish, Text.Assembly.settle, Text.Wide.ofString]
  have hbody := run_escapes s.toList []
  rw [List.append_nil] at hbody
  exact run_cons_of_some hopen (run_append_of_some hbody (run_cons_of_some hclose rfl))

end Characters

namespace Reader

/-! ### Pieces of a text -/

/-- The text holds whole tokens, and they lead the reader from one state to another. -/
def Leads (xs : List Char) (st st' : State) : Prop :=
  ∃ ts, scanner.run .between xs = some (ts, .between) ∧ ts.foldlM step st = some st'

namespace Leads

variable {xs ys : List Char} {st st' st'' : State}

theorem append (hx : Leads xs st st') (hy : Leads ys st' st'') : Leads (xs ++ ys) st st'' := by
  obtain ⟨ts, hts, hst⟩ := hx
  obtain ⟨us, hus, hst'⟩ := hy
  refine ⟨ts ++ us, run_append_of_some hts hus, ?_⟩
  rw [List.foldlM_append, hst]
  exact hst'

theorem of_token {t : Token} (hx : scanner.run .between xs = some ([t], .between))
    (h : step st t = some st') : Leads xs st st' :=
  ⟨[t], hx, by simp [h]⟩

theorem quote {s : String} (h : step st (.text (.ofString s)) = some st') :
    Leads (quote s) st st' :=
  .of_token (run_quote s) h

theorem newLine (level : Nat) (st : State) : Leads (newLine level) st st := by
  have hspaces : ∀ n, scanner.run .between (List.replicate n ' ') = some ([], .between) := by
    intro n
    induction n with
    | zero => rfl
    | succ n ih =>
      have hspace : Token.step .between ' ' = some ([], .between) := rfl
      exact run_cons_of_some hspace ih
  have hbreak : Token.step .between '\n' = some ([], .between) := rfl
  exact ⟨[], run_cons_of_some hbreak (hspaces _), rfl⟩

end Leads

/-! ### Values -/

/-- The reader waits for a value inside these frames. -/
def Awaits (st : State) (fs : List Frame) : Prop :=
  ∀ t, t ≠ .closeBracket → step st t = begin? fs t

theorem awaits_value (fs : List Frame) : Awaits (.value fs) fs := fun _ _ => rfl

theorem awaits_firstItem (fs : List Frame) : Awaits (.firstItem fs) (.items [] :: fs) := by
  intro t ht
  cases t with
  | closeBracket => exact absurd rfl ht
  | _ => rfl

/-- What is written for a value leads to where it is complete, from wherever it may stand. -/
def IsRead (v : Json) : Prop :=
  ∀ level st fs, Awaits st fs → Leads (write level v) st (complete v fs)

theorem leads_writeItems {vs : List Json} (h : ∀ v ∈ vs, IsRead v) (level : Nat)
    (reversed : List Json) (fs : List Frame) :
    Leads (writeItems level vs) (.afterItem reversed fs)
      (.afterItem (vs.reverse ++ reversed) fs) := by
  induction vs generalizing reversed with
  | nil => exact ⟨[], rfl, rfl⟩
  | cons v vs ih =>
    have hcomma : Leads [','] (.afterItem reversed fs) (.value (.items reversed :: fs)) :=
      .of_token rfl rfl
    have hv := h v List.mem_cons_self level _ _ (awaits_value (.items reversed :: fs))
    have hvs := ih (fun w hw => h w (List.mem_cons_of_mem _ hw)) (v :: reversed)
    have hall := ((hcomma.append (.newLine level _)).append hv).append hvs
    rw [List.reverse_cons, List.append_assoc]
    exact hall

theorem leads_array {vs : List Json} (h : ∀ v ∈ vs, IsRead v) : IsRead (.array vs) := by
  intro level st fs hst
  have hopen : Leads ['['] st (.firstItem fs) := .of_token rfl (hst _ nofun)
  cases vs with
  | nil =>
    have hclose : Leads [']'] (.firstItem fs) (complete (.array []) fs) := .of_token rfl rfl
    exact hopen.append hclose
  | cons v vs =>
    have hv := h v List.mem_cons_self (level + 1) _ _ (awaits_firstItem fs)
    have hvs := leads_writeItems (fun w hw => h w (List.mem_cons_of_mem _ hw)) (level + 1) [v] fs
    have hclose : Leads [']'] (.afterItem (vs.reverse ++ [v]) fs)
        (complete (.array (v :: vs)) fs) :=
      .of_token rfl (by simp [step])
    have hbody := ((hopen.append (.newLine (level + 1) _)).append hv).append hvs
    exact (hbody.append (.newLine level _)).append hclose

/-- The entries as the reader keeps them until their object is complete. -/
def widened (es : List (String × Json)) : List (Text.Wide × Json) :=
  es.map fun e => (.ofString e.1, e.2)

theorem widened_append (es fs : List (String × Json)) :
    widened (es ++ fs) = widened es ++ widened fs :=
  List.map_append

theorem ofString_mem_keys_widened_iff {k : String} {es : List (String × Json)} :
    .ofString k ∈ Entries.keys (widened es) ↔ k ∈ Entries.keys es := by
  have hinjective : ∀ k', Text.Wide.ofString k' = .ofString k ↔ k' = k := fun k' =>
    ⟨fun h => by rw [← Text.Wide.shown_ofString k', h, Text.Wide.shown_ofString],
      fun h => h ▸ rfl⟩
  simp [Entries.keys, widened, List.mem_map, hinjective]

/-- An entry behind what comes before it goes to the end, if its key is new. -/
theorem leads_entry {xs : List Char} {st st' : State} (hxs : Leads xs st st') {k : String}
    {v : Json} (h : IsRead v) {done : List (String × Json)} (hk : k ∉ Entries.keys done)
    (level : Nat) (fs : List Frame)
    (hst : step st' (.text (.ofString k)) = some (.colon (widened done) (.ofString k) fs)) :
    Leads (xs ++ quote k ++ ": ".toList ++ write level v) st
      (.afterEntry (widened (done ++ [(k, v)])) fs) := by
  let key : Text.Wide := .ofString k
  have hcolon : Leads ": ".toList (.colon (widened done) key fs)
      (.value (.entries (widened done) key :: fs)) :=
    .of_token rfl rfl
  have hv := h level _ _ (awaits_value (.entries (widened done) key :: fs))
  rw [complete, Entries.put_of_not_mem (mt ofString_mem_keys_widened_iff.mp hk)] at hv
  rw [widened_append]
  exact ((hxs.append (.quote hst)).append hcolon).append hv

theorem leads_writeEntries {es : List (String × Json)} (h : ∀ e ∈ es, IsRead e.2)
    {done : List (String × Json)} (hkeys : (Entries.keys (done ++ es)).Nodup) (level : Nat)
    (fs : List Frame) :
    Leads (writeEntries level es) (.afterEntry (widened done) fs)
      (.afterEntry (widened (done ++ es)) fs) := by
  induction es generalizing done with
  | nil =>
    rw [List.append_nil]
    exact ⟨[], rfl, rfl⟩
  | cons e es ih =>
    obtain ⟨k, v⟩ := e
    have hk : k ∉ Entries.keys done := by
      rw [Entries.keys, List.map_append, List.nodup_append] at hkeys
      exact fun hmem => hkeys.2.2 k hmem k List.mem_cons_self rfl
    have hcomma : Leads [','] (.afterEntry (widened done) fs) (.key (widened done) fs) :=
      .of_token rfl rfl
    have hentry := leads_entry (hcomma.append (.newLine level _)) (h _ List.mem_cons_self) hk level
      fs rfl
    have hrest : (Entries.keys ((done ++ [(k, v)]) ++ es)).Nodup := by
      rwa [List.append_assoc]
    have hes := ih (fun e he => h e (List.mem_cons_of_mem _ he)) hrest
    rw [List.append_assoc] at hes
    exact hentry.append hes

theorem leads_object {es : List (String × Json)} (h : ∀ e ∈ es, IsRead e.2)
    (hkeys : (Entries.keys es).Nodup) : IsRead (.object es) := by
  intro level st fs hst
  have hopen : Leads ['\x7b'] st (.firstKey fs) := .of_token rfl (hst _ nofun)
  cases es with
  | nil =>
    have hclose : Leads ['\x7d'] (.firstKey fs) (complete (.object []) fs) := .of_token rfl rfl
    exact hopen.append hclose
  | cons e es =>
    obtain ⟨k, v⟩ := e
    have hkey : step (.firstKey fs) (.text (.ofString k)) =
        some (.colon (widened []) (.ofString k) fs) := rfl
    have hentry := leads_entry (hopen.append (.newLine (level + 1) _)) (h _ List.mem_cons_self)
      (List.not_mem_nil : k ∉ Entries.keys []) (level + 1) fs hkey
    have hkeys' : (Entries.keys ([(k, v)] ++ es)).Nodup := hkeys
    have hes := leads_writeEntries (fun e he => h e (List.mem_cons_of_mem _ he)) hkeys' (level + 1)
      fs
    have hclose : Leads ['\x7d'] (.afterEntry (widened ((k, v) :: es)) fs)
        (complete (.object ((k, v) :: es)) fs) := by
      refine .of_token rfl ?_
      rw [step, widened, named_ofString]
    exact ((hentry.append hes).append (.newLine level _)).append hclose

/-- **What is written is read.** -/
theorem isRead_of_isTextual {v : Json} (h : IsTextual v) : IsRead v := by
  induction h with
  | string s =>
    intro level st fs hst
    have hstring := hst (.text (.ofString s)) nofun
    rw [begin?, Text.Wide.shown_ofString] at hstring
    exact .quote hstring
  | array _ ih => exact leads_array ih
  | object hkeys _ ih => exact leads_object ih hkeys

end Reader

/-- **A text value is read back as it was.** -/
theorem read?_write {v : Json} (h : IsTextual v) (level : Nat) :
    read? (write level v) = some v := by
  obtain ⟨ts, hts, hst⟩ := Reader.isRead_of_isTextual h level _ [] (Reader.awaits_value [])
  have htokens : scanner.tokens (write level v) = some ts := by
    have hrun : scanner.run scanner.start (write level v) = some (ts, .between) := hts
    rw [Text.Scanner.tokens_eq, hrun, Option.bind_some]
    simp [scanner, finish]
  rw [read?, htokens, Option.bind_some, ofTokens?, hst]
  rfl

end QueryComposer.Json
