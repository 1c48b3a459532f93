import HttpCodec.Proofs.Dictionary
import HttpCodec.Proofs.RoundTrip.Built
import HttpCodec.Proofs.RoundTrip.Undeclared
import HttpCodec.Proofs.Text.Percent

set_option autoImplicit false

/-! # Queries that are written and read again

A query is written of pairs whose values have a text (`Query.write_eq_ok_iff`), which all have but
the numbers that are too long (`Query.exists_write_iff`). Keys and values are percent encoded one by
one, so what is written of them holds neither the ampersands between the pairs nor the equals sign
within one, and a query comes apart where it was put together (`Query.read_ofPairs`). It is visible
ASCII as well, so a request can carry it, and the request that is parsed has the same parameters
(`parse_of_build_query`).
-/

namespace HttpCodec

open HttpCodec.Parser HttpCodec.Message

/-! ## Values with a text -/

/-- The text of a scalar; of numbers, the short ones have one. -/
inductive Scalar.Shows : Scalar → Text → Prop
  | null : Shows .null "None"
  | boolean (b : Bool) : Shows (.boolean b) (if b then "True" else "False")
  | integer {n : Int} (hshort : Decimal.Short n) : Shows (.integer n) (Decimal.ofInt n)
  | text (t : Text) : Shows (.text t) t

theorem Scalar.shown_eq_ok_iff {s : Scalar} {t : Text} : s.shown = .ok t ↔ s.Shows t := by
  constructor
  · intro h
    match s with
    | .null =>
        cases h
        exact .null
    | .boolean true =>
        cases h
        exact .boolean true
    | .boolean false =>
        cases h
        exact .boolean false
    | .integer n =>
        obtain ⟨hshort, rfl⟩ := Decimal.write_eq_ok_iff.mp h
        exact .integer hshort
    | .text u =>
        cases h
        exact .text _
  · intro h
    cases h with
    | null => rfl
    | boolean b => cases b <;> rfl
    | integer hshort => exact Decimal.write_eq_ok_iff.mpr ⟨hshort, rfl⟩
    | text u => rfl

theorem Scalar.exists_shows_iff {s : Scalar} :
    (∃ t, s.Shows t) ↔ ∀ n, s = .integer n → Decimal.Short n := by
  constructor
  · rintro ⟨t, h⟩ n rfl
    cases h with
    | integer hshort => exact hshort
  · intro h
    match s with
    | .null => exact ⟨_, .null⟩
    | .boolean b => exact ⟨_, .boolean b⟩
    | .integer n => exact ⟨_, .integer (h n rfl)⟩
    | .text t => exact ⟨_, .text t⟩

namespace Query

/-- What is shown of a pair has the same key, and the text of the value. -/
def Shows (pair : Text × Scalar) (shown : Text × Text) : Prop :=
  shown.1 = pair.1 ∧ pair.2.Shows shown.2

theorem showValue_eq_ok_iff {pair : Text × Scalar} {shown : Text × Text} :
    showValue pair = .ok shown ↔ Shows pair shown := by
  unfold showValue Shows
  simp only [map_eq_ok_iff, Scalar.shown_eq_ok_iff]
  constructor
  · rintro ⟨t, ht, rfl⟩
    exact ⟨rfl, ht⟩
  · rintro ⟨hkey, ht⟩
    exact ⟨shown.2, ht, Prod.ext hkey.symm rfl⟩

/-- **A query is written of what is shown of the pairs.** -/
theorem write_eq_ok_iff {pairs : List (Text × Scalar)} {query : Text} :
    write pairs = .ok query ↔ ∃ shown, List.Forall₂ Shows pairs shown ∧ ofPairs shown = query := by
  unfold write
  simp only [map_eq_ok_iff, mapM_eq_ok_iff, showValue_eq_ok_iff]

/-- **A query is written exactly if each number is short.** -/
theorem exists_write_iff {pairs : List (Text × Scalar)} :
    (∃ query, write pairs = .ok query) ↔
      ∀ key n, (key, .integer n) ∈ pairs → Decimal.Short n := by
  have hwrite : (∃ query, write pairs = .ok query) ↔ ∃ shown, pairs.mapM showValue = .ok shown := by
    unfold write
    simp only [map_eq_ok_iff]
    exact ⟨fun ⟨_, shown, hshown, _⟩ => ⟨shown, hshown⟩, fun ⟨shown, h⟩ => ⟨_, shown, h, rfl⟩⟩
  rw [hwrite, exists_mapM_iff]
  constructor
  · intro h key n hmem
    obtain ⟨shown, hshown⟩ := h _ hmem
    exact Scalar.exists_shows_iff.mp ⟨_, (showValue_eq_ok_iff.mp hshown).2⟩ n rfl
  · rintro h ⟨key, s⟩ hmem
    obtain ⟨t, ht⟩ := Scalar.exists_shows_iff.mpr fun n hn => h key n (hn ▸ hmem)
    exact ⟨(key, t), showValue_eq_ok_iff.mpr ⟨rfl, ht⟩⟩

theorem map_fst_of_shows {pairs : List (Text × Scalar)} {shown : List (Text × Text)}
    (h : List.Forall₂ Shows pairs shown) : shown.map (·.1) = pairs.map (·.1) := by
  induction h with
  | nil => rfl
  | cons hpair _ ih => rw [List.map_cons, List.map_cons, hpair.1, ih]

/-! ## Pairs of texts -/

variable (pairs : List (Text × Text))

/-- What is neither unreserved nor a percent sign is not written. -/
theorem not_mem_encode (t : Text) {c : Char} (hc : Percent.isUnreserved c = false)
    (hne : c ≠ '%') : c ∉ Percent.encode t := by
  intro hmem
  rcases Percent.mem_encode hmem with h | h
  · rw [hc] at h
    cases h
  · exact hne h

theorem parameter_eq (key value : Text) :
    parameter key value = Percent.encode key ++ '=' :: Percent.encode value := by
  unfold parameter
  simp

/-- **A pair reads back from what is written of it**: the first equals sign is the one between the
key and the value. -/
theorem readItem_parameter (key value : Text) : readItem (parameter key value) = (key, value) := by
  have hcut : cut '=' (parameter key value) = (Percent.encode key, Percent.encode value) := by
    rw [parameter_eq, cut_append (not_mem_encode key (by decide) (by decide))]
  simp only [readItem, hcut, Percent.decode_encode]

theorem not_mem_parameter (key value : Text) : '&' ∉ parameter key value := by
  rw [parameter_eq, List.mem_append, List.mem_cons]
  rintro (h | h | h)
  · exact not_mem_encode key (by decide) (by decide) h
  · exact absurd h (by decide)
  · exact not_mem_encode value (by decide) (by decide) h

/-- **The query of pairs is read as the dictionary of the pairs.** -/
theorem read_ofPairs : read (ofPairs pairs) = Dictionary.ofPairs pairs := by
  cases hpairs : pairs with
  | nil => rfl
  | cons pair rest =>
      rw [← hpairs]
      set items := pairs.map fun pair => parameter pair.1 pair.2 with hitems
      have hquery : ofPairs pairs = ['&'].intercalate items := rfl
      have hsplit : splitOn '&' (['&'].intercalate items) = items := by
        refine splitOn_intercalate (by simp [hitems, hpairs]) fun item hitem => ?_
        obtain ⟨pair, -, rfl⟩ := List.mem_map.mp hitem
        exact not_mem_parameter pair.1 pair.2
      have hne : ofPairs pairs ≠ [] := by
        -- nothing would be one item that is empty
        intro hnil
        rw [← hquery, hnil, hitems, hpairs, List.map_cons, parameter_eq] at hsplit
        have hitem := (List.cons.inj hsplit).1
        simp at hitem
      have hread : items.map readItem = pairs := by
        rw [hitems, List.map_map]
        exact (List.map_congr_left fun pair _ => readItem_parameter pair.1 pair.2).trans
          (List.map_id pairs)
      unfold read
      rw [if_neg (by simpa using hne), hquery, hsplit, hread]

theorem visible_of_isUnreserved {c : Char} (h : Percent.isUnreserved c = true) : Visible c := by
  have hascii : c.toNat < 0x80 := of_decide_eq_true (Percent.isAscii_of_isUnreserved h)
  exact Latin.forall_ascii
    (P := fun d => Percent.isUnreserved d = true → 0x21 ≤ d.toNat ∧ d.toNat ≤ 0x7E)
    (by decide) hascii h

/-- A query is visible ASCII. -/
theorem visible_ofPairs : ∀ c ∈ ofPairs pairs, Visible c := by
  have hencode : ∀ t : Text, ∀ c ∈ Percent.encode t, Visible c := by
    intro t c hc
    rcases Percent.mem_encode hc with h | rfl
    · exact visible_of_isUnreserved h
    · exact ⟨by decide, by decide⟩
  intro c hc
  rcases mem_intercalate hc with hc | ⟨item, hitem, hc⟩
  · rw [List.mem_singleton.mp hc]
    exact ⟨by decide, by decide⟩
  · obtain ⟨pair, -, rfl⟩ := List.mem_map.mp hitem
    change c ∈ parameter pair.1 pair.2 at hc
    rw [parameter_eq, List.mem_append, List.mem_cons] at hc
    rcases hc with hc | rfl | hc
    · exact hencode _ c hc
    · exact ⟨by decide, by decide⟩
    · exact hencode _ c hc

/-- **A request takes the query of any pairs.** -/
theorem setQuery_ofPairs (l : RequestLine) :
    l.setQuery (ofPairs pairs) = .ok { l with query := ofPairs pairs } := by
  unfold RequestLine.setQuery
  rw [if_neg]
  intro h
  simp only [Bool.and_eq_true, Bool.not_eq_true', List.isEmpty_eq_false_iff] at h
  rw [StartLine.isTarget_iff.mpr ⟨h.1, visible_ofPairs pairs⟩] at h
  exact absurd h.2 (by decide)

end Query

/-! ## Requests without fields and a body -/

section

variable {m : Message} {l : RequestLine} {kind : Option Kind} {limits : Limits}
  (hm : m.Sound) (hline : m.line = .request l) (hmethod : ¬ Framing.TakesBody l.method)
  (hheaders : m.headers.fields = []) (hbody : m.body = [])
  (hkind : kind = none ∨ kind = some .request)

include hm hline hmethod hheaders hkind

include hbody in
/-- Without trailers, the start line and an empty line are all that is written. -/
theorem parse_of_bare (htrailers : m.trailers.fields = [])
    (hstart : m.line.text.length ≤ limits.startLine) (h0 : 0 ≤ limits.headerLine) :
    ∃ w n, m.build false = .ok w ∧ parse w kind limits = .ok [n] ∧ n.line = m.line := by
  have hnone : ∀ name, m.headers.has name = false := by
    intro name
    rw [← hm.headers.indexed.getAll_eq_nil_iff, hm.headers.indexed.getAll_eq, hheaders]
    rfl
  have hhead : HeadFits { kind, limits } m.line m.headers.fields := by
    refine ⟨hm.line, hm.headers.fields, ?_, hstart, h0, ?_, ?_⟩
    · rw [hline]
      exact hkind
    · rw [hheaders]
      exact nofun
    · rw [hheaders]
      exact Nat.zero_le _
  obtain ⟨w, payloads, hbuild, hne, hdelimited⟩ :=
    rereadable_of_undeclared hm hhead hline hmethod hbody (hnone _) (hnone _) htrailers
  have h1 : 0 ≤ limits.startLine := le_trans (Int.natCast_nonneg _) hstart
  exact ⟨w, _, hbuild, parse_of_conveys (hdelimited.conveys hne h1), rfl⟩

/-- Trailers are written as well, if there are any. -/
theorem parse_of_sentFits (hfits : m.SentFits limits) :
    ∃ w n, m.build false = .ok w ∧ parse w kind limits = .ok [n] ∧ n.line = m.line := by
  have hlengths : m.lengths = [] := by
    unfold lengths
    rw [hheaders]
    rfl
  have hundeclared : m.Undeclared := by
    refine ⟨?_, .inl hlengths⟩
    unfold codings
    rw [hheaders]
    rfl
  have hsent : m.trailers.fields = [] ∨ m.line.allowsBody = true ∧ m.lengths = [] := by
    refine .inr ⟨?_, hlengths⟩
    rw [hline]
    rfl
  have hlacks : ∀ l', ¬ m.LacksLength l' := by
    intro l' hlacks
    obtain rfl := StartLine.request.inj (hline.symm.trans hlacks.line)
    exact hmethod hlacks.method
  have hkind' : kind = none ∨ kind = some m.line.kind := by
    rw [hline]
    exact hkind
  have hconveys := hundeclared.conveys hm (o := { kind, limits }) hsent hlacks hkind' hfits
  exact ⟨_, _, hundeclared.build_eq hm hsent, parse_of_conveys hconveys, rfl⟩

end

/-- **The parameters of a query survive building and parsing.** Take any pairs of a text and a
scalar. The query of the pairs is written exactly if each number among the values is short, and then
a request takes it. It is read as the dictionary of what is shown of the pairs: each key is in its
first place and has its last value, as plain text. Whatever request with the method GET has been
made that carries this query, without fields or a body, building it and parsing what was built gives
one request with the same parameters, if the start line and the trailers, should there be any, fit
the limits. -/
theorem parse_of_build_query (pairs : List (Text × Scalar)) :
    ((∃ query, Query.write pairs = .ok query) ↔
      ∀ key n, (key, .integer n) ∈ pairs → Decimal.Short n) ∧
    ∀ query, Query.write pairs = .ok query →
      ∃ shown : List (Text × Text), List.Forall₂ Query.Shows pairs shown ∧
        (∀ (m : Message) (l : RequestLine), m.line = .request l →
          m.setQuery query = .ok { m with line := .request { l with query } }) ∧
        Query.read query = Dictionary.ofPairs shown ∧
        (Dictionary.ofPairs shown).keys = (pairs.map (·.1)).eraseDups ∧
        (∀ key, (Dictionary.ofPairs shown).get? key =
          (shown.filter (·.1 = key)).getLast?.map (·.2)) ∧
        ∀ (m : Message) (l : RequestLine) (kind : Option Kind) (limits : Limits),
          m.Made → m.line = .request l → l.method = "GET" → l.query = query →
          m.headers.fields = [] → m.body = [] → kind = none ∨ kind = some .request →
          m.line.text.length ≤ limits.startLine → 0 ≤ limits.headerLine →
          m.trailers.fields = [] ∨ m.SentFits limits →
          ∃ w n l', m.build false = .ok w ∧ parse w kind limits = .ok [n] ∧
            n.line = .request l' ∧ l'.parameters = Dictionary.ofPairs shown := by
  refine ⟨Query.exists_write_iff, fun query hquery => ?_⟩
  obtain ⟨shown, hshown, rfl⟩ := Query.write_eq_ok_iff.mp hquery
  refine ⟨shown, hshown, fun m l hline => ?_, Query.read_ofPairs shown, ?_,
    Dictionary.get?_ofPairs shown, ?_⟩
  · have hset : l.setQuery (Query.ofPairs shown) = .ok { l with query := Query.ofPairs shown } :=
      Query.setQuery_ofPairs shown l
    simp only [setQuery, changeRequest, hline, hset]
    rfl
  · rw [Dictionary.keys_ofPairs, Query.map_fst_of_shows hshown]
  · intro m l kind limits hmade hline hget hl hheaders hbody hkind hstart h0 htrailers
    have hmethod : ¬ Framing.TakesBody l.method := by
      rw [hget]
      decide
    have hparsed : ∃ w n, m.build false = .ok w ∧ parse w kind limits = .ok [n] ∧
        n.line = m.line := by
      rcases htrailers with htrailers | hfits
      · exact parse_of_bare hmade.sound hline hmethod hheaders hbody hkind htrailers hstart h0
      · exact parse_of_sentFits hmade.sound hline hmethod hheaders hkind hfits
    obtain ⟨w, n, hbuild, hparse, hsame⟩ := hparsed
    refine ⟨w, n, l, hbuild, hparse, hsame.trans hline, ?_⟩
    unfold RequestLine.parameters
    rw [hl, Query.read_ofPairs]

/-- A key with a space that is given twice, with the separators in its first value, and a key beyond
ASCII. -/
theorem parse_of_build_query_repeated :
    let pairs : List (Text × Scalar) :=
      [("a b", .text "x=&%?"), ("\u00E9", .boolean true), ("a b", .integer 5)]
    let query : Text := "a%20b=x%3D%26%25%3F&%C3%A9=True&a%20b=5"
    let m : Message := ⟨.request ⟨"GET", "/", query, .http11⟩, {}, [], {}⟩
    Query.write pairs = .ok query ∧
    (m.Made ∧ m.line.text.length ≤ ({} : Limits).startLine) ∧
    ∃ w n l, m.build false = .ok w ∧ parse w none {} = .ok [n] ∧ n.line = .request l ∧
      l.parameters = [(("a b" : Text), ("5" : Text)), (("\u00E9" : Text), ("True" : Text))] := by
  intro pairs query m
  have hwrite : Query.write pairs = .ok query := by decide +kernel
  obtain ⟨-, hpairs⟩ := parse_of_build_query pairs
  obtain ⟨shown, -, hset, hread, -, -, hparse⟩ := hpairs query hwrite
  have hrequest : request "GET" "/" none {} =
      .ok ⟨.request ⟨"GET", "/", [], .http11⟩, {}, [], {}⟩ := rfl
  have hrequested := Made.request (Parts.filled_of_pairs _ _ _) hrequest
  have hmade : m.Made := by
    have hquery := hset ⟨.request ⟨"GET", "/", [], .http11⟩, {}, [], {}⟩
      ⟨"GET", "/", [], .http11⟩ rfl
    have happlied := hrequested.apply (.setQuery query)
    rw [apply, hquery] at happlied
    exact happlied
  have hstart : m.line.text.length ≤ ({} : Limits).startLine := by decide +kernel
  obtain ⟨w, n, l, hbuild, hparsed, hline, hparameters⟩ :=
    hparse m _ none {} hmade rfl rfl rfl rfl rfl (.inl rfl) hstart (by decide) (.inl rfl)
  refine ⟨hwrite, ⟨hmade, hstart⟩, w, n, l, hbuild, hparsed, hline, ?_⟩
  rw [hparameters, ← hread]
  decide +kernel

/-- A number of 4301 digits has no text, so no query is written of it. A request with a query and
more trailers than a parser takes is written with all of them, and is not read again. -/
theorem no_text_or_no_room_for_trailers :
    (∀ query, Query.write [("n", .integer (10 ^ 4300))] ≠ .ok query) ∧
    ∃ (m : Message) (w : Octets), m.Made ∧ m.line = .request ⟨"GET", "/", "k=v", .http11⟩ ∧
      Query.write [("k", .text "v")] = .ok "k=v" ∧ m.headers.fields = [] ∧ m.body = [] ∧
      m.line.text.length ≤ ({} : Limits).startLine ∧ m.build false = .ok w ∧
      parse w none {} = .error (.invalid (.tooManyFields 100)) := by
  constructor
  · intro query hwrite
    have hshort := Query.exists_write_iff.mp ⟨query, hwrite⟩ "n" _ List.mem_cons_self
    unfold Decimal.Short at hshort
    generalize 4300 = digits at hshort
    rw [Int.natAbs_pow] at hshort
    exact Nat.lt_irrefl _ hshort
  · let line : StartLine := .request ⟨"GET", "/", "k=v", .http11⟩
    let pairs : List (Scalar × FieldValue) := List.replicate 101 (.text "T", .text "1")
    have hview : (({} : Fields).addAll pairs).toOption.bind
        (fun fs => Message.rereadFailure? ⟨line, {}, [], fs⟩ {}) =
          some (.invalid (.tooManyFields 100)) := by
      decide +kernel
    obtain ⟨fs, hadd, hfailure⟩ := Option.bind_eq_some_iff.mp hview
    obtain ⟨w, hbuild, hparse⟩ := rereadFailure?_eq_some_iff.mp hfailure
    have hrequest : request "GET" "/?k=v" none {} = .ok ⟨line, {}, [], {}⟩ := rfl
    have hfilled : fs.Filled :=
      (Fields.Filled.empty true 8192).addAll (toOption_eq_some_iff.mp hadd)
    have hmade : Made ⟨line, {}, [], fs⟩ :=
      .trailers (.request (Parts.filled_of_pairs _ _ _) hrequest) hfilled
    have hwrite : Query.write [("k", .text "v")] = .ok "k=v" := by decide +kernel
    have hstart : line.text.length ≤ ({} : Limits).startLine := by decide +kernel
    exact ⟨_, w, hmade, rfl, hwrite, rfl, rfl, hstart, hbuild, hparse⟩

end HttpCodec
