import Mathlib.Data.List.DropRight
import Mathlib.Data.List.Perm.Basic
import WireContract.Proofs.Service.Cookies

/-!
# Credentials that come back

A client keeps of every header that it is sent the text in front of the first semicolon, for each
name the last, and sends what it keeps with its next request. The value of a header is written as
it is, but it is read with blanks and quotes taken off. So what comes back is what was set only for
names and values that reading leaves alone, and a name that was cleared comes back with the empty
value.

* `kept`, `Sends`: a client;
* `IsName`, `IsPlain`: the names and the values that reading leaves alone;
* `get?_sent`: what is read of a name in the header that comes back;
* `comes_back_iff`: when that is what the credentials had.
-/

namespace WireContract.Service

/-! ## 1. A client -/

/-- What a client keeps of a header: the text in front of the first semicolon. -/
def pairOf (header : String) : List Char := header.toList.takeWhile (· != ';')

/-- The name that a client keeps a pair under. Without an equals sign it is the empty one. -/
def pairName (pair : List Char) : String :=
  String.ofList ((Text.cutAt '=' pair).getD ([], pair)).1

/-- What a client keeps of headers: of every name the last pair. -/
def kept (headers : List String) : Entries (List Char) :=
  Entries.ofList (headers.map fun header => (pairName (pairOf header), pairOf header))

/-- The header that sends pairs back. -/
def cookieHeader (pairs : List (List Char)) : String := String.ofList ([';', ' '].intercalate pairs)

/-- The client that was sent the headers may send this one back: its pairs stand in any order. -/
def Sends (headers : List String) (cookie : String) : Prop :=
  ∃ pairs, pairs.Perm ((kept headers).map (·.2)) ∧ cookie = cookieHeader pairs

theorem not_mem_pairOf (header : String) : ';' ∉ pairOf header := by
  intro hmem
  simpa using List.mem_takeWhile_imp hmem

theorem pairOf_of_not_mem {text : String} (h : ';' ∉ text.toList) : pairOf text = text.toList :=
  List.takeWhile_eq_self_iff.mpr fun _ hc => bne_iff_ne.mpr (ne_of_mem_of_not_mem hc h)

/-! ## 2. What reading leaves alone -/

/-- The text stands in double quotes. -/
def IsQuoted (cs : List Char) : Prop := ∃ inner, cs = '"' :: (inner ++ ['"'])

/-- A name that is read as it is written. -/
structure IsName (name : String) : Prop where
  uncut : ';' ∉ name.toList
  undivided : '=' ∉ name.toList
  trimmed : Text.trim name.toList = name.toList

/-- A value that is read as it is written. -/
structure IsPlain (value : String) : Prop where
  uncut : ';' ∉ value.toList
  trimmed : Text.trim value.toList = value.toList
  unquoted : ¬ IsQuoted value.toList

/-- What comes back of a value. -/
def returned (value : String) : String :=
  String.ofList (Credentials.unquote (Text.trim (pairOf value)))

theorem trim_trim (cs : List Char) : Text.trim (Text.trim cs) = Text.trim cs := by
  -- What is kept begins like the text without its first blanks, so it has none there.
  have hstart : Text.trimStart (Text.trim cs) = Text.trim cs := by
    refine List.dropWhile_eq_self_iff.mpr fun hpos => ?_
    have hfront : Text.trim cs <+: Text.trimStart cs := List.rdropWhile_prefix Text.isBlank _
    have hlength := hpos.trans_le hfront.length_le
    rw [hfront.getElem hpos]
    exact List.dropWhile_get_zero_not Text.isBlank cs hlength
  rw [Text.trim, hstart]
  exact List.rdropWhile_idempotent Text.isBlank (Text.trimStart cs)

theorem length_unescape_le (cs : List Char) : (Credentials.unescape cs).length ≤ cs.length := by
  fun_induction Credentials.unescape cs <;> grind

theorem unquote_eq_self_iff (cs : List Char) : Credentials.unquote cs = cs ↔ ¬ IsQuoted cs := by
  constructor
  · rintro heq ⟨inner, rfl⟩
    have hinner : Credentials.unquote ('"' :: (inner ++ ['"'])) = Credentials.unescape inner := by
      rw [Credentials.unquote, if_pos ⟨rfl, List.getLast?_concat⟩, List.dropLast_concat]
    have hle := length_unescape_le inner
    rw [← hinner, heq, List.length_cons, List.length_append] at hle
    omega
  · intro hquoted
    cases cs with
    | nil => rfl
    | cons c rest =>
      refine if_neg fun ⟨hc, hlast⟩ => hquoted ⟨rest.dropLast, ?_⟩
      rw [hc, List.dropLast_append_getLast? _ hlast]

theorem length_unquote_le (cs : List Char) : (Credentials.unquote cs).length ≤ cs.length := by
  cases cs with
  | nil => exact Nat.le_refl _
  | cons c rest =>
    have hle := length_unescape_le rest.dropLast
    rw [Credentials.unquote]
    split
    · rw [List.length_dropLast] at hle
      exact (hle.trans (Nat.sub_le _ _)).trans (Nat.le_succ _)
    · exact Nat.le_refl _

/-- **A value comes back as it was exactly if it is plain.** -/
theorem returned_eq_iff (value : String) : returned value = value ↔ IsPlain value := by
  have hcut : (pairOf value).Sublist value.toList := List.takeWhile_sublist _
  constructor
  · intro heq
    have hchars : Credentials.unquote (Text.trim (pairOf value)) = value.toList := by
      rw [← String.toList_ofList (l := Credentials.unquote _)]
      exact congrArg String.toList heq
    -- No step makes the text longer, so none makes it shorter.
    have hlength := congrArg List.length hchars
    have hunquote := length_unquote_le (Text.trim (pairOf value))
    have htrim := (Text.trim_sublist (pairOf value)).length_le
    have hfront := hcut.length_le
    have hpair : pairOf value = value.toList := hcut.eq_of_length_le (by omega)
    have htrimmed : Text.trim (pairOf value) = pairOf value :=
      (Text.trim_sublist _).eq_of_length_le (by omega)
    rw [htrimmed, hpair] at hchars
    exact ⟨hpair ▸ not_mem_pairOf value, hpair ▸ htrimmed, (unquote_eq_self_iff _).mp hchars⟩
  · intro hplain
    rw [returned, pairOf_of_not_mem hplain.uncut, hplain.trimmed,
      (unquote_eq_self_iff _).mpr hplain.unquoted, String.ofList_toList]

/-! ## 3. What is written of a change -/

/-- The name that is read in the pair of a change. -/
def Change.readName (x : Change) : String :=
  String.ofList (Credentials.nameAndValue (pairOf x.header)).1

variable {x : Change} {name key cookie : String} {changes : List Change}

theorem takeWhile_append_separator (front back : List Char) :
    (front ++ ';' :: back).takeWhile (· != ';') = front.takeWhile (· != ';') := by
  induction front with
  | nil => rfl
  | cons c rest ih =>
    rw [List.cons_append, List.takeWhile_cons, List.takeWhile_cons, ih]

/-- The attributes of a header never reach the pair. -/
theorem pairOf_header (h : ';' ∉ x.name.toList) :
    pairOf x.header = x.name.toList ++ '=' :: pairOf (x.value.getD "") := by
  have hname : ∀ c ∈ x.name.toList, (c != ';') = true := fun c hc =>
    bne_iff_ne.mpr (ne_of_mem_of_not_mem hc h)
  have hheader : x.header.toList = x.name.toList ++ '=' :: ((x.value.getD "").toList ++
      ';' :: " Path=/; HttpOnly; Secure; SameSite=Strict".toList) := by
    simp [Change.header, Credentials.setCookie]
  rw [pairOf, hheader, List.takeWhile_append_of_pos hname, List.takeWhile_cons_of_pos (by decide),
    takeWhile_append_separator]
  rfl

theorem nameAndValue_header (h : IsName x.name) :
    Credentials.nameAndValue (pairOf x.header) =
      (x.name.toList, Text.trim (pairOf (x.value.getD ""))) := by
  rw [Credentials.nameAndValue, pairOf_header h.uncut, Text.cutAt_append h.undivided]
  exact Prod.ext h.trimmed rfl

theorem pairName_header (h : IsName x.name) : pairName (pairOf x.header) = x.name := by
  rw [pairName, pairOf_header h.uncut, Text.cutAt_append h.undivided]
  exact String.ofList_toList

theorem readName_eq (h : IsName x.name) : x.readName = x.name := by
  rw [Change.readName, nameAndValue_header h]
  exact String.ofList_toList

/-- **Every name that is read in a pair is read as it is written.** -/
theorem isName_nameAndValue {pair : List Char} (h : ';' ∉ pair) :
    IsName (String.ofList (Credentials.nameAndValue pair).1) := by
  obtain ⟨front, hname, hsub, heq⟩ : ∃ front,
      (Credentials.nameAndValue pair).1 = Text.trim front ∧ front.Sublist pair ∧ '=' ∉ front := by
    cases hcut : Text.cutAt '=' pair with
    | none =>
      refine ⟨[], ?_, List.nil_sublist _, List.not_mem_nil⟩
      rw [Credentials.nameAndValue, hcut]
      rfl
    | some cut =>
      obtain ⟨front, back⟩ := cut
      refine ⟨front, ?_, ?_, Text.not_mem_of_cutAt hcut⟩
      · rw [Credentials.nameAndValue, hcut]
        rfl
      · rw [Text.cutAt_eq_some hcut]
        exact List.sublist_append_left _ _
  rw [hname]
  have htrim := Text.trim_sublist front
  exact
    { uncut := by
        rw [String.toList_ofList]
        exact fun hmem => h ((htrim.trans hsub).mem hmem)
      undivided := by
        rw [String.toList_ofList]
        exact fun hmem => heq (htrim.mem hmem)
      trimmed := by rw [String.toList_ofList, trim_trim] }

theorem entryIn?_eq_some {pair : List Char} {value : String}
    (h : Credentials.entryIn? pair = some (name, value)) :
    String.ofList (Credentials.nameAndValue pair).1 = name := by
  rw [Credentials.entryIn?] at h
  split at h
  · cases h
  · exact congrArg Prod.fst (Option.some.inj h)

/-- What is read in the pair of a change: nothing if its name and its value are empty. -/
theorem entryIn?_header (h : IsName x.name) :
    Credentials.entryIn? (pairOf x.header) =
      if x.name = "" ∧ Text.trim (pairOf (x.value.getD "")) = [] then none
      else some (x.name, returned (x.value.getD "")) := by
  rw [Credentials.entryIn?, nameAndValue_header h]
  simp [returned]

/-! ## 4. The header that comes back -/

/-- A blank in front of a pair is not read. -/
theorem entryIn?_cons_blank (pair : List Char) :
    Credentials.entryIn? (' ' :: pair) = Credentials.entryIn? pair := by
  have hblank : Text.isBlank ' ' = true := by decide
  have hread : Credentials.nameAndValue (' ' :: pair) = Credentials.nameAndValue pair := by
    rw [Credentials.nameAndValue, Text.cutAt, if_neg (by decide), Credentials.nameAndValue]
    cases Text.cutAt '=' pair with
    | none => exact Prod.ext rfl (Text.trim_cons_of_isBlank hblank pair)
    | some cut => exact Prod.ext (Text.trim_cons_of_isBlank hblank cut.1) rfl
  rw [Credentials.entryIn?, hread, Credentials.entryIn?]

theorem filterMap_segments_cons_blank (cs : List Char) :
    (Text.segments ';' (' ' :: cs)).filterMap Credentials.entryIn? =
      (Text.segments ';' cs).filterMap Credentials.entryIn? := by
  rw [Text.segments, if_neg (by decide)]
  cases hcut : Text.segments ';' cs with
  | nil => exact absurd hcut (Text.segments_ne_nil ';' cs)
  | cons first more =>
    rw [List.filterMap_cons, entryIn?_cons_blank, List.filterMap_cons]

/-- **Pairs that are sent back are read one by one.** -/
theorem filterMap_segments_intercalate {pairs : List (List Char)} (h : ∀ p ∈ pairs, ';' ∉ p) :
    (Text.segments ';' ([';', ' '].intercalate pairs)).filterMap Credentials.entryIn? =
      pairs.filterMap Credentials.entryIn? := by
  induction pairs with
  | nil => rfl
  | cons pair rest ih =>
    obtain ⟨hpair, hrest⟩ := List.forall_mem_cons.mp h
    cases rest with
    | nil => rw [List.intercalate_singleton, Text.segments_of_not_mem hpair]
    | cons next others =>
      rw [List.intercalate_cons_cons, List.append_assoc, List.cons_append,
        Text.segments_append hpair, List.filterMap_cons, List.singleton_append,
        filterMap_segments_cons_blank, ih hrest]
      rfl

theorem lastValue?_cookieHeader {pairs : List (List Char)} (h : ∀ p ∈ pairs, ';' ∉ p) :
    Credentials.lastValue? key (cookieHeader pairs) =
      Entries.lastOf (pairs.filterMap Credentials.entryIn?) key := by
  rw [Credentials.lastValue?, cookieHeader, String.toList_ofList, filterMap_segments_intercalate h]

/-! ## 5. What a client keeps of changes -/

/-- No other name of the changes is read as this one. -/
def Unmistakable (key : String) (changes : List Change) : Prop :=
  ∀ x ∈ changes, x.readName = key → x.name = key

theorem readName_of_pairName (h : IsName key) (hx : pairName (pairOf x.header) = key) :
    x.readName = key := by
  have hchars : ((Text.cutAt '=' (pairOf x.header)).getD ([], pairOf x.header)).1 = key.toList := by
    rw [← hx, pairName, String.toList_ofList]
  have hread : (Credentials.nameAndValue (pairOf x.header)).1 = key.toList := by
    rw [← h.trimmed, ← hchars, Credentials.nameAndValue]
  rw [Change.readName, hread, String.ofList_toList]

theorem pairName_eq_iff (h : IsName key) (hown : Unmistakable key changes) (hx : x ∈ changes) :
    pairName (pairOf x.header) = key ↔ x.name = key := by
  constructor
  · exact fun hpair => hown x hx (readName_of_pairName h hpair)
  · rintro rfl
    exact pairName_header h

/-- **Of a name the pair of its last change is kept.** -/
theorem get?_kept (h : IsName key) (hown : Unmistakable key changes) :
    (kept (changes.map Change.header)).get? key =
      (lastChange? key changes).map fun x => pairOf x.header := by
  have hfilter : changes.filter (fun x => pairName (pairOf x.header) == key) =
      changes.filter (·.name == key) :=
    List.filter_congr fun x hx => by
      rw [Bool.eq_iff_iff, beq_iff_eq, beq_iff_eq, pairName_eq_iff h hown hx]
  rw [kept, Entries.get?_ofList, Entries.lastOf, List.map_map, List.filter_map,
    List.getLast?_map, Option.map_map, lastChange?, ← hfilter]
  rfl

/-- Every pair that is kept is that of a change, and the one kept of its name. -/
theorem exists_of_mem_kept {pair : List Char}
    (h : pair ∈ (kept (changes.map Change.header)).map (·.2)) :
    ∃ x ∈ changes, pair = pairOf x.header ∧
      (kept (changes.map Change.header)).get? (pairName pair) = some pair := by
  obtain ⟨⟨held, _⟩, hmem, rfl⟩ := List.mem_map.mp h
  have hlast := Entries.lastOf_of_mem_ofList hmem
  obtain ⟨header, hheader, heq⟩ := List.mem_map.mp (Entries.mem_of_lastOf hlast)
  obtain ⟨x, hx, rfl⟩ := List.mem_map.mp hheader
  obtain ⟨rfl, rfl⟩ := Prod.mk.inj heq
  exact ⟨x, hx, rfl, (Entries.get?_ofList _ _).trans hlast⟩

/-- What is sent back is read pair by pair. -/
theorem get?_ofHeader_sent (hsent : Sends (changes.map Change.header) cookie) :
    ∃ pairs : List (List Char), pairs.Perm ((kept (changes.map Change.header)).map (·.2)) ∧ ∀ key,
      (Credentials.ofHeader cookie).get? key =
        Entries.lastOf (pairs.filterMap Credentials.entryIn?) key := by
  obtain ⟨pairs, hperm, rfl⟩ := hsent
  refine ⟨pairs, hperm, fun key => ?_⟩
  rw [Credentials.get?_ofHeader, lastValue?_cookieHeader]
  intro pair hpair
  obtain ⟨y, -, rfl, -⟩ := exists_of_mem_kept (hperm.mem_iff.mp hpair)
  exact not_mem_pairOf y.header

/-- **What comes back of a name is what is read in the pair of its last change.** -/
theorem get?_sent (h : IsName key) (hown : Unmistakable key changes)
    (hlast : lastChange? key changes = some x) (hsent : Sends (changes.map Change.header) cookie) :
    (Credentials.ofHeader cookie).get? key =
      (Credentials.entryIn? (pairOf x.header)).map (·.2) := by
  obtain ⟨pairs, hperm, hread⟩ := get?_ofHeader_sent hsent
  have hkept : (kept (changes.map Change.header)).get? key = some (pairOf x.header) := by
    rw [get?_kept h hown, hlast]
    rfl
  -- The pair of the last change is sent, and it is the only one that is read as this name.
  have hmem : pairOf x.header ∈ pairs :=
    hperm.mem_iff.mpr (List.mem_map_of_mem (f := (·.2)) (Entries.mem_of_get? hkept))
  have honly : ∀ value, (key, value) ∈ pairs.filterMap Credentials.entryIn? →
      Credentials.entryIn? (pairOf x.header) = some (key, value) := by
    intro value hvalue
    obtain ⟨pair, hpair, hentry⟩ := List.mem_filterMap.mp hvalue
    obtain ⟨y, hy, rfl, hheld⟩ := exists_of_mem_kept (hperm.mem_iff.mp hpair)
    have hname : y.name = key := hown y hy (entryIn?_eq_some hentry)
    rw [(pairName_eq_iff h hown hy).mpr hname, hkept] at hheld
    have hsame : pairOf x.header = pairOf y.header := Option.some.inj hheld
    rw [hsame]
    exact hentry
  rw [hread]
  cases hentry : Credentials.entryIn? (pairOf x.header) with
  | none =>
    cases hvalue : Entries.lastOf (pairs.filterMap Credentials.entryIn?) key with
    | none => rfl
    | some value => cases hentry.symm.trans (honly value (Entries.mem_of_lastOf hvalue))
  | some entry =>
    obtain ⟨name, value⟩ := entry
    have hx : x.name = key := lastChange?_name hlast
    obtain rfl : name = key :=
      (entryIn?_eq_some hentry).symm.trans ((readName_eq (hx ▸ h)).trans hx)
    refine Entries.lastOf_eq_some (List.mem_filterMap.mpr ⟨_, hmem, hentry⟩) fun other hother => ?_
    cases hentry.symm.trans (honly other hother)
    rfl

/-- A name that is not read as it is written never comes back. -/
theorem get?_sent_eq_none (h : ¬ IsName key) (hsent : Sends (changes.map Change.header) cookie) :
    (Credentials.ofHeader cookie).get? key = none := by
  obtain ⟨pairs, hperm, hread⟩ := get?_ofHeader_sent hsent
  rw [hread]
  cases hvalue : Entries.lastOf (pairs.filterMap Credentials.entryIn?) key with
  | none => rfl
  | some value =>
    obtain ⟨pair, hpair, hentry⟩ := List.mem_filterMap.mp (Entries.mem_of_lastOf hvalue)
    obtain ⟨y, -, rfl, -⟩ := exists_of_mem_kept (hperm.mem_iff.mp hpair)
    exact absurd (entryIn?_eq_some hentry ▸ isName_nameAndValue (not_mem_pairOf y.header)) h

/-! ## 6. The way there and back -/

/-- **What comes back of a name that is read as it is written**: the value as it is read, and
    nothing if the name is empty too. -/
theorem get?_sent_eq (h : IsName key) (hown : Unmistakable key changes)
    (hlast : lastChange? key changes = some x) (hsent : Sends (changes.map Change.header) cookie) :
    (Credentials.ofHeader cookie).get? key =
      if key = "" ∧ Text.trim (pairOf (x.value.getD "")) = [] then none
      else some (returned (x.value.getD "")) := by
  obtain rfl : x.name = key := lastChange?_name hlast
  rw [get?_sent h hown hlast hsent, entryIn?_header h]
  split <;> rfl

/-- What credentials say of a name is what reading leaves alone: a plain value of such a name,
    though not the empty value of the empty name; or no value, where nothing is read. -/
def ComesBack (key : String) : Option String → Prop
  | some value => IsName key ∧ IsPlain value ∧ ¬ (key = "" ∧ value = "")
  | none => ¬ IsName key ∨ key = ""

theorem comesBack_some_iff {value : String} (h : IsName key) :
    (if key = "" ∧ Text.trim (pairOf value) = [] then none else some (returned value)) =
      some value ↔ ComesBack key (some value) := by
  have htrim : IsPlain value → (Text.trim (pairOf value) = [] ↔ value = "") := by
    intro hplain
    rw [pairOf_of_not_mem hplain.uncut, hplain.trimmed, String.toList_eq_nil_iff]
  constructor
  · intro hsame
    split at hsame
    · cases hsame
    · rename_i hsome
      have hplain : IsPlain value := (returned_eq_iff value).mp (Option.some.inj hsame)
      exact ⟨h, hplain, by rwa [← htrim hplain]⟩
  · rintro ⟨-, hplain, hsome⟩
    rw [if_neg (by rwa [htrim hplain]), (returned_eq_iff value).mpr hplain]

/-- **Changed credentials come back through the client exactly if reading leaves them alone**, as
    long as no other name that was changed is read as theirs; a name that was cleared comes back
    with the empty value. -/
theorem comes_back_iff {header : Option String} (htouched : key ∈ changes.map (·.name))
    (hown : Unmistakable key changes)
    (hsent : Sends ((Credentials.ofHeader? header).changed changes).queued cookie) :
    let after := (Credentials.ofHeader? header).changed changes
    let next := Credentials.ofHeader? (some cookie)
    (next.get? key = after.get? key ↔ ComesBack key (after.get? key)) ∧
      (after.get? key = none → IsName key → key ≠ "" → next.get? key = some "") := by
  intro after next
  obtain ⟨x, hlast⟩ := exists_lastChange? htouched
  have hafter : after.get? key = x.value := by
    rw [Credentials.get?_changed, hlast]
    rfl
  rw [Credentials.queued_changed, Credentials.queued_ofHeader?, List.nil_append] at hsent
  rw [hafter]
  by_cases hname : IsName key
  · have hnext := get?_sent_eq hname hown hlast hsent
    rw [show next.get? key = _ from hnext]
    cases x.value with
    | some value => exact ⟨comesBack_some_iff hname, nofun⟩
    | none =>
      have hempty : Text.trim (pairOf "") = [] := rfl
      have hreturned : returned "" = "" := rfl
      simp [hempty, hreturned, ComesBack, hname]
  · have hnext : next.get? key = none := get?_sent_eq_none hname hsent
    rw [hnext]
    refine ⟨?_, fun _ hkey => absurd hkey hname⟩
    cases x.value <;> simp [ComesBack, hname]

/-- A theme that was set twice is there again; a session that was cleared is one without a name. -/
theorem comes_back_iff_theme :
    let changes : List Change := [⟨"theme", some "dark"⟩, .session none, ⟨"theme", some "dim red"⟩]
    let after := (Credentials.ofHeader? (some "sessionid=s1; theme=light")).changed changes
    let next := Credentials.ofHeader? (some "sessionid=; theme=dim red")
    Unmistakable "theme" changes ∧ Unmistakable "sessionid" changes ∧
      Sends after.queued "sessionid=; theme=dim red" ∧
      next.get? "theme" = after.get? "theme" ∧ after.sessionId? = none ∧
      next.sessionId? = some "" := by
  intro changes after next
  have htheme : Unmistakable "theme" changes := by
    unfold Unmistakable
    decide
  have hsession : Unmistakable "sessionid" changes := by
    unfold Unmistakable
    decide
  have hsent : Sends after.queued "sessionid=; theme=dim red" :=
    ⟨["sessionid=".toList, "theme=dim red".toList], by decide, by decide⟩
  have hplain : IsPlain "dim red" :=
    ⟨by decide, by decide, by rw [← unquote_eq_self_iff]; decide⟩
  exact ⟨htheme, hsession, hsent,
    (comes_back_iff (by decide) htheme hsent).1.mpr
      ⟨⟨by decide, by decide, by decide⟩, hplain, by decide⟩,
    by decide,
    (comes_back_iff (by decide) hsession hsent).2 (by decide)
      ⟨by decide, by decide, by decide⟩ (by decide)⟩

/-- The name reads otherwise in the header that comes back than in the changed credentials. -/
def Lost (header : Option String) (changes : List Change) (key cookie : String) : Prop :=
  key ∈ changes.map (·.name) ∧
    Sends ((Credentials.ofHeader? header).changed changes).queued cookie ∧
    (Credentials.ofHeader? (some cookie)).get? key ≠
      ((Credentials.ofHeader? header).changed changes).get? key

/-- What is lost: that a session was cleared, quotes, what follows a semicolon, blanks around a
    value, an empty value of the empty name, a name with an equals sign, and one of two names that
    are read alike. -/
theorem changes_are_lost :
    Lost (some "sessionid=s1") [.session none] "sessionid" "sessionid=" ∧
    Lost none [⟨"k", some "\"v\""⟩] "k" "k=\"v\"" ∧
    Lost none [⟨"k", some "v;w"⟩] "k" "k=v" ∧
    Lost none [⟨"k", some " v"⟩] "k" "k= v" ∧
    Lost none [⟨"", some ""⟩] "" "=" ∧
    Lost none [⟨"a=b", some "v"⟩] "a=b" "a=b=v" ∧
    Lost none [⟨"a", some "1"⟩, ⟨" a", some "2"⟩] "a" "a=1;  a=2" := by
  refine ⟨?_, ?_, ?_, ?_, ?_, ?_, ?_⟩ <;>
    exact ⟨by decide, ⟨_, List.Perm.refl _, by decide⟩, by decide⟩

end WireContract.Service
