import OpenUnion.Code.UploadBody
import OpenUnion.Interleave.Dialogue
import OpenUnion.Safety.Artifacts

/-!
# The bytes of an upload are stored as they were sent

An upload that is answered `ok` has written one file and scanned it.  Whatever the statements in
between were answered, the bytes are those the route made of the body: those of the request for
all content types but `application/json`, whose body is parsed and printed again.

* `answered_ok`: an upload that is answered `ok` has written and scanned the bytes of the route.
* `storedBytes_json`: what is stored of a JSON body.
* `upload_kept_iff`: the bytes are kept exactly for other content types and for bodies that are
  printed as they are.
-/

namespace OpenUnion.Storage

open Interleave JsonText Text

/-- What the statements of a request were and how they were answered. -/
abbrev Log := List (Exchange Stmt Stmt.Val)

/-- The files that were written. -/
def written (log : Log) : List Bytes :=
  log.filterMap fun x =>
    match x.1 with
    | .writeFile _ bytes => some bytes
    | _ => none

/-- What was scanned. -/
def scanned (log : Log) : List Bytes :=
  log.filterMap fun x =>
    match x.1 with
    | .scan bytes _ => some bytes
    | _ => none

/-- The file that is written and scanned holds the bytes the client sent. -/
def HttpUpload.Kept (u : HttpUpload) (log : Log) : Prop :=
  written log = [u.bytes] ∧ scanned log = [u.bytes]

/-- The body is printed as it is: a JSON text, in UTF-8, of a value other than a string, without
white space, every number and character of which is spelled as `JSON.stringify` spells it, and
every object of which has its keys once and in the order of properties. -/
def PrintedAsIs (bytes : Bytes) : Prop :=
  ∃ d : Document, d.Compact doubles ∧ (∀ items, d ≠ .str items) ∧ bytes = encode d.text

variable {env : StorageEnv} {f : Framework} {u : HttpUpload} {b : Bytes}

/-! ## What an upload writes and scans -/

/-- Collects what is written and what is scanned. -/
def byteWatch : Watch Stmt Stmt.Val (List Bytes × List Bytes) where
  may _ _ := True
  after m x :=
    match x.1 with
    | .writeFile _ bytes => (m.1 ++ [bytes], m.2)
    | .scan bytes _ => (m.1, m.2 ++ [bytes])
    | _ => m

theorem byteWatch_run (log : Log) (m : List Bytes × List Bytes) :
    byteWatch.run m log = (m.1 ++ written log, m.2 ++ scanned log) := by
  induction log generalizing m with
  | nil => simp [Watch.run, written, scanned]
  | cons x log ih =>
      obtain ⟨s, r⟩ := x
      rw [Watch.run, ih]
      cases s <;> simp [byteWatch, written, scanned]

/-- A part of an upload that ends normally has written and scanned these bytes. -/
abbrev Collects (p : Code Unit) (m m' : List Bytes × List Bytes) : Prop :=
  Prog.Minds byteWatch (fun _ => True) (fun _ after => after = m') (fun _ _ => True) p m

/-- A part of an upload, of which nothing is known but that it may end. -/
theorem minds_anything (p : Code Unit) (m : List Bytes × List Bytes) :
    Prog.Minds byteWatch (fun _ => True) (fun _ _ => True) (fun _ _ => True) p m := by
  induction p generalizing m with
  | ret a => trivial
  | fail e => trivial
  | op s next err ih _ => exact ⟨trivial, fun r _ => ih r _⟩
  | begin next ih => exact ih m
  | commit t next err ih _ => exact ih m
  | rollback next ih => exact ih m

/-- A statement that neither writes nor scans. -/
theorem collects_update (id : String) (r : ArtifactUpdate) (m : List Bytes × List Bytes) :
    Collects (run (.update id r)) m m := ⟨trivial, fun _ _ => rfl⟩

/-- The scan of an upload. -/
theorem collects_scanUpload (id path contentType : String) (scannedRow : ArtifactUpdate)
    (blocked : ScanResult → ArtifactUpdate) (w : List Bytes) :
    Collects (scanUpload id path b contentType scannedRow blocked) (w, []) (w, [b]) := by
  refine ⟨trivial, fun scan _ => ?_⟩
  change Collects (if (!scan.ok) = true then _ else _) (w, [b]) (w, [b])
  split
  · -- the file is removed again, and the upload throws
    refine (minds_anything (attempt (run (.unlink path))) (w, [b])).bind fun _ m _ => ?_
    exact (minds_anything (run (.update id (blocked scan))) m).bind fun _ _ _ => trivial
  · exact collects_update id scannedRow (w, [b])

/-- An upload that ends normally has written and scanned its bytes. -/
theorem collects_putUpload (id : String) (contentType : Option String)
    (allowed : Artifact → Bool) (scannedRow : ArtifactUpdate)
    (blocked : ScanResult → ArtifactUpdate) :
    Collects (putUpload env id b contentType allowed scannedRow blocked) ([], []) ([b], [b]) := by
  refine ⟨trivial, fun row _ => ?_⟩
  cases row with
  | none => trivial
  | some row =>
      change Collects (if (!allowed row) = true then _ else _) ([], []) ([b], [b])
      split
      · trivial
      split
      · trivial
      split
      · trivial
      generalize (contentType.or row.contentType).getD "application/octet-stream" = contentType
      cases env.uploadPath id row with
      | none => trivial
      | some path =>
          have hrest : Collects ((run (.update id (.uploaded contentType b.length))).bind fun _ =>
              scanUpload id path b contentType scannedRow blocked) ([b], []) ([b], [b]) :=
            (collects_update id _ _).bind fun _ m hm =>
              hm ▸ collects_scanUpload id path contentType scannedRow blocked [b]
          exact ⟨trivial, fun _ _ => hrest⟩

/-- An upload that is answered `ok` has written and scanned the bytes of the route. -/
theorem uploadRoute_ok {put : Bytes → Code Unit} {partner : Partner Stmt Stmt.Val}
    (hput : Collects (put b) ([], []) ([b], [b]))
    (h : ((uploadRoute (some b) put).converse partner []).2 = .ok .ok) :
    written ((uploadRoute (some b) put).converse partner []).1 = [b] ∧
      scanned ((uploadRoute (some b) put).converse partner []).1 = [b] := by
  have hdone : Prog.Minds byteWatch (fun _ => True) (fun a m => a = Reply.ok → m = ([b], [b]))
      (fun _ _ => True) ((put b).bind fun _ => .ret .ok) ([], []) :=
    hput.bind fun _ m hm _ => hm
  have hroute : Prog.Minds byteWatch (fun _ => True) (fun a m => a = Reply.ok → m = ([b], [b]))
      (fun _ _ => True) (uploadRoute (some b) put) ([], []) := by
    refine hdone.orElse fun message m _ hreply => ?_
    cases hreply
  have hfair : ∀ x ∈ ((uploadRoute (some b) put).converse partner []).1, True :=
    fun _ _ => trivial
  have hrun := (hroute.converse [] hfair).2
  rw [h, byteWatch_run] at hrun
  simpa using hrun

/-- A content type that is not allowed ends an upload. -/
theorem minds_not_allowed {contentType : String} (h : contentType ∉ allowedContentTypes)
    (id : String) (allowed : Artifact → Bool) (scannedRow : ArtifactUpdate)
    (blocked : ScanResult → ArtifactUpdate) (m : List Bytes × List Bytes) :
    Prog.Minds byteWatch (fun _ => True) (fun _ _ => False) (fun _ _ => True)
      (putUpload env id b (some contentType) allowed scannedRow blocked) m := by
  refine ⟨trivial, fun row _ => ?_⟩
  cases row with
  | none => trivial
  | some row =>
      change Prog.Minds byteWatch (fun _ => True) (fun _ _ => False) (fun _ _ => True)
        (if (!allowed row) = true then _ else _) _
      split
      · trivial
      · have hgiven : ((some contentType).or row.contentType).getD "application/octet-stream" =
            contentType := rfl
        rw [hgiven, if_pos h]
        trivial

/-- A route whose upload does not end normally does not answer `ok`. -/
theorem uploadRoute_refused {put : Bytes → Code Unit} {partner : Partner Stmt Stmt.Val}
    (hput : Prog.Minds byteWatch (fun _ => True) (fun _ _ => False) (fun _ _ => True) (put b)
      ([], [])) :
    ((uploadRoute (some b) put).converse partner []).2 ≠ .ok .ok := by
  intro h
  have hdone : Prog.Minds byteWatch (fun _ => True) (fun a _ => a ≠ Reply.ok) (fun _ _ => True)
      ((put b).bind fun _ => .ret .ok) ([], []) := hput.bind fun _ _ hno => hno.elim
  have hroute : Prog.Minds byteWatch (fun _ => True) (fun a _ => a ≠ Reply.ok) (fun _ _ => True)
      (uploadRoute (some b) put) ([], []) := by
    refine hdone.orElse fun message m _ hreply => ?_
    cases hreply
  have hfair : ∀ x ∈ ((uploadRoute (some b) put).converse partner []).1, True :=
    fun _ _ => trivial
  have hend := (hroute.converse [] hfair).2
  rw [h] at hend
  exact hend rfl

/-- The exchanges of a request with whoever answers its statements, and its answer. -/
def Request.run (r : Request) (env : StorageEnv) (partner : Partner Stmt Stmt.Val) :
    Log × Except String Reply :=
  (r.code env).converse partner []

/-- Both routes are an upload that collects its bytes. -/
theorem code_withBytes (u : HttpUpload) (env : StorageEnv) (b : Bytes) :
    ∃ put, (u.withBytes (some b)).code env = uploadRoute (some b) put ∧
      Collects (put b) ([], []) ([b], [b]) ∧
        ∀ contentType, u.contentType = some contentType → contentType ∉ allowedContentTypes →
          Prog.Minds byteWatch (fun _ => True) (fun _ _ => False) (fun _ _ => True) (put b)
            ([], []) := by
  obtain ⟨id, uploader, contentType, sent⟩ := u
  cases uploader with
  | worker workerId =>
      refine ⟨fun bytes => putLocalUpload env id workerId bytes contentType, rfl, ?_, ?_⟩
      · exact collects_putUpload id contentType _ _ _
      · rintro ct rfl hno
        exact minds_not_allowed hno id _ _ _ _
  | verifier =>
      refine ⟨fun bytes => putVerifierLocalUpload env id bytes contentType, rfl, ?_, ?_⟩
      · exact collects_putUpload id contentType _ _ _
      · rintro ct rfl hno
        exact minds_not_allowed hno id _ _ _ _

/-- An upload that is answered `ok` has written and scanned the bytes of the route. -/
theorem answered_ok {bytes : Option Bytes} {partner : Partner Stmt Stmt.Val}
    (h : ((u.withBytes bytes).run env partner).2 = .ok .ok) :
    (∀ contentType ∈ u.contentType, contentType ∈ allowedContentTypes) ∧
      ∃ b, bytes = some b ∧ written ((u.withBytes bytes).run env partner).1 = [b] ∧
        scanned ((u.withBytes bytes).run env partner).1 = [b] := by
  cases bytes with
  | none =>
      obtain ⟨id, uploader, contentType, sent⟩ := u
      cases uploader <;> cases h
  | some b =>
      obtain ⟨put, hcode, hcollects, hrefused⟩ := code_withBytes u env b
      simp only [Request.run, hcode] at h ⊢
      refine ⟨fun ct hct => ?_, b, rfl, uploadRoute_ok hcollects h⟩
      by_contra hno
      exact uploadRoute_refused (hrefused ct hct hno) h

/-! ## The bytes of the route -/

/-- The length of a text in code units. -/
theorem length_utf16 (c : Char) : 0 < (utf16 c).length := by
  obtain ⟨unit, more, hunits, -⟩ := utf16_head c
  rw [hunits]
  exact Nat.succ_pos _

/-- The text of an item is at least as long as what it denotes. -/
theorem length_item (i : Item) : i.units.length ≤ (i.text.flatMap utf16).length := by
  cases i with
  | plain c h => simp [Item.units, Item.text]
  | short e =>
      have hlength : (utf16 e.char).length = 1 := by cases e <;> rfl
      have hfirst := length_utf16 '\\'
      simp only [Item.units, Item.text, List.flatMap_cons, List.length_append, hlength]
      omega
  | unicode a b c d =>
      have hfirst := length_utf16 '\\'
      simp only [Item.units, Item.text, List.flatMap_cons, List.length_append, List.length_singleton]
      omega

theorem length_itemsUnits (items : List Item) :
    (itemsUnits items).length ≤ ((itemsText items).flatMap utf16).length := by
  induction items with
  | nil => exact le_refl 0
  | cons i items ih =>
      have hitem := length_item i
      simp only [itemsUnits, itemsText, List.flatMap_cons, List.flatMap_append,
        List.length_append] at ih ⊢
      omega

/-- A replaced surrogate is one code unit, as before. -/
theorem length_encoded (s : List UInt16) :
    (((codePoints s).map encodedPoint).flatMap utf16).length = s.length := by
  have hpoint : ∀ p : CodePoint, (utf16 (encodedPoint p)).length = p.units.length := by
    intro p
    cases p with
    | char c => rfl
    | lone unit => rfl
  have hsum : ∀ ps : List CodePoint, ((ps.map encodedPoint).flatMap utf16).length =
      (ps.flatMap CodePoint.units).length := by
    intro ps
    induction ps with
    | nil => rfl
    | cons p ps ih =>
        simp only [List.map_cons, List.flatMap_cons, List.length_append, ih, hpoint]
  rw [hsum, codePoints_units]

/-- A string of JSON text is never the text itself. -/
theorem stringBytes_ne {t : Spaced} {items : List Item} (ht : t.document = .str items)
    (hbytes : decode b = t.chars) : stringBytes (itemsUnits items) ≠ b := by
  rintro rfl
  rw [stringBytes, decode_utf8] at hbytes
  have hlength := congrArg (fun cs => (List.flatMap utf16 cs).length) hbytes
  have hshort := length_itemsUnits items
  have hquote := length_utf16 '"'
  simp only [length_encoded] at hlength
  simp only [Spaced.chars, ht, Document.text, List.flatMap_append, List.flatMap_cons,
    List.length_append] at hlength
  omega

/-- What is stored of a JSON text that is no string. -/
theorem stored_iff {t : Spaced} (hparse : parse (decode b) = some t)
    (hstr : ∀ items, t.document ≠ .str items) :
    encode ((t.document.value doubles).stringify doubles) = b ↔ PrintedAsIs b := by
  have hprint := stringify_parse_iff (N := doubles) hparse
  constructor
  · intro hstored
    have htext : (t.document.value doubles).stringify doubles = decode b := by
      rw [← hstored, decode_utf8]
    obtain ⟨hbefore, hcompact, hafter⟩ := hprint.mp htext
    refine ⟨t.document, hcompact, hstr, ?_⟩
    rw [parse_eq_some_iff, Spaced.chars, hbefore, hafter, List.nil_append, List.append_nil]
      at hparse
    rw [← hparse, ← htext, hstored]
  · rintro ⟨d, hcompact, -, rfl⟩
    rw [decode_utf8, parse_eq_some_iff] at hparse
    have hsame : t = ⟨.empty, d, .empty⟩ := by
      refine Spaced.chars_injective ?_
      rw [← hparse]
      simp [Spaced.chars, Spaces.empty]
    rw [hsame, Value.stringify]
    exact congrArg (fun d => encode d.text) ((document_value_iff d).mpr hcompact)

/-- An empty body is stored as an object. -/
theorem not_printedAsIs (h : decode b = []) : ¬ PrintedAsIs b := by
  rintro ⟨d, -, -, rfl⟩
  obtain ⟨c, more, htext, -⟩ := d.text_head []
  rw [decode_utf8] at h
  rw [h] at htext
  cases htext

/-- What is stored of a JSON body is the body exactly if it is printed as it is. -/
theorem json_kept_iff {toLowerCase : String → String} {contentType : Option String} {body : Body}
    {stored : Bytes} (hbody : parseJsonBody b = some body)
    (hstored : uploadBytes toLowerCase contentType body = some stored) :
    stored = b ↔ PrintedAsIs b := by
  unfold parseJsonBody at hbody
  simp only at hbody
  split_ifs at hbody with hempty
  · obtain rfl := Option.some.inj hbody
    simp only [uploadBytes] at hstored
    split_ifs at hstored
    obtain rfl := Option.some.inj hstored
    refine iff_of_false ?_ (not_printedAsIs hempty)
    rintro rfl
    rw [decode_utf8] at hempty
    cases hempty
  · simp only [parseValue, Option.map_map, Option.map_eq_some_iff, Function.comp] at hbody
    obtain ⟨t, hparse, rfl⟩ := hbody
    by_cases hstr : ∃ items, t.document = .str items
    · obtain ⟨items, hitems⟩ := hstr
      have htext := (parse_eq_some_iff _ _).mp hparse
      rw [hitems] at hstored
      obtain rfl := Option.some.inj hstored
      refine iff_of_false (stringBytes_ne hitems htext) ?_
      rintro ⟨d, -, hno, rfl⟩
      have hsame : t = ⟨.empty, d, .empty⟩ := by
        refine Spaced.chars_injective ?_
        rw [← htext, decode_utf8]
        simp [Spaced.chars, Spaces.empty]
      rw [hsame] at hitems
      exact hno items hitems
    · rw [not_exists] at hstr
      have hprinted : uploadBytes toLowerCase contentType (.json (t.document.value doubles)) =
          if essence toLowerCase contentType = "application/json" then
            some (encode ((t.document.value doubles).stringify doubles)) else none := by
        cases hd : t.document with
        | str items => exact absurd hd (hstr items)
        | _ => rfl
      rw [hprinted] at hstored
      split_ifs at hstored
      obtain rfl := Option.some.inj hstored
      exact stored_iff hparse hstr

theorem allowed_cases {contentType : String} (h : contentType ∈ allowedContentTypes) :
    contentType = "application/json" ∨
      contentType ≠ "application/json" ∧ contentType ∈ rawContentTypes := by
  simp only [allowedContentTypes, rawContentTypes, List.mem_cons, List.not_mem_nil, or_false] at h ⊢
  rcases h with rfl | rfl | rfl | rfl | rfl | rfl | rfl | rfl <;> simp

/-- The bytes of an upload that is answered `ok` are kept exactly for content types other than
`application/json` and for bodies that are printed as they are. -/
theorem upload_kept_iff (u : HttpUpload) (env : StorageEnv) (f : Framework) (r : Request)
    (partner : Partner Stmt Stmt.Val) (hrequest : u.request env f = some r)
    (hok : (r.run env partner).2 = .ok .ok) :
    u.Kept (r.run env partner).1 ↔
      (u.contentType = some "application/json" → PrintedAsIs u.bytes) := by
  obtain ⟨body, hbody, rfl⟩ := Option.map_eq_some_iff.mp hrequest
  obtain ⟨hallowed, stored, hstored, hwritten, hscanned⟩ := answered_ok hok
  have hkept : u.Kept ((u.withBytes (uploadBytes env.toLowerCase u.contentType body)).run env
      partner).1 ↔ stored = u.bytes := by
    simp [HttpUpload.Kept, hwritten, hscanned]
  rw [hkept]
  unfold Framework.body at hbody
  rw [Option.ite_none_left_eq_some] at hbody
  obtain ⟨-, hbody⟩ := hbody
  cases hct : u.contentType with
  | none =>
      simp only [hct, Option.ite_none_right_eq_some] at hbody hstored
      obtain ⟨-, hbody⟩ := hbody
      obtain rfl := Option.some.inj hbody
      cases hstored
  | some contentType =>
      simp only [hct] at hbody hstored
      rcases allowed_cases (hallowed contentType hct) with rfl | ⟨hne, hraw⟩
      · have hparser : f.parser "application/json" = some .json := if_pos rfl
        rw [hparser] at hbody
        rw [json_kept_iff hbody hstored]
        simp
      · have hparser : f.parser contentType = some .raw := by
          rw [Framework.parser, if_neg hne, if_pos hraw]
        rw [hparser] at hbody
        obtain rfl := Option.some.inj hbody
        obtain rfl := Option.some.inj hstored
        simp [hne]

/-! ## Two bodies of one value -/

/-- The body of a JSON text. -/
theorem parseJsonBody_text (d : Document) (before after : Spaces) :
    parseJsonBody (encode (Spaced.chars ⟨before, d, after⟩)) =
      some (.json (d.value doubles)) := by
  have hparse := (parse_eq_some_iff _ ⟨before, d, after⟩).mpr rfl
  have hne : Spaced.chars ⟨before, d, after⟩ ≠ [] := by
    obtain ⟨c, more, htext, -⟩ := d.text_head after.chars
    simp [Spaced.chars, htext]
  rw [parseJsonBody, decode_utf8]
  simp only [if_neg hne, parseValue, hparse, Option.map_some]

/-- One space. -/
def oneSpace : Spaces := ⟨[' '], fun c hc => by rw [List.mem_singleton.mp hc]; rfl⟩

/-- `\x7b"ok":true\x7d`, with `w` for the white space behind the brace. -/
def okDocument (w : Spaces) : Document :=
  .obj (.last ⟨w, [.plain 'o' (by decide), .plain 'k' (by decide)], .empty⟩ .empty (.bool true)
    .empty)

/-- Worker 1 uploads the JSON text. -/
def okUpload (w : Spaces) : HttpUpload where
  artifactId := "a"
  uploader := .worker 1
  contentType := some "application/json"
  bytes := encode (okDocument w).text

/-- A framework that knows no other content types. -/
def oneMegabyte : Framework := ⟨1048576, fun _ => none⟩

/-- The artifact is there, and its scan finds nothing. -/
def calmPartner : Partner Stmt Stmt.Val := fun _ s =>
  match s with
  | .select _ => some presignedArtifact
  | .scan _ _ => .clean
  | s => s.result StorageEnv.disk artifactWorld

/-- What is stored of both texts. -/
def okBytes : Bytes := encode "\x7b\"ok\":true\x7d".toList

/-- The request as the route sees it. -/
theorem okUpload_request (w : Spaces) (hw : (encode (okDocument w).text).length ≤ 100) :
    (okUpload w).request StorageEnv.disk oneMegabyte =
      some ((okUpload w).withBytes (some okBytes)) := by
  have hbody := parseJsonBody_text (okDocument w) .empty .empty
  have hchars : Spaced.chars ⟨.empty, okDocument w, .empty⟩ = (okDocument w).text := by
    simp [Spaced.chars, Spaces.empty]
  rw [hchars] at hbody
  have hsmall : ¬ oneMegabyte.bodyLimit < (okUpload w).bytes.length := by
    have hlimit : oneMegabyte.bodyLimit = 1048576 := rfl
    have hbytes : (okUpload w).bytes = encode (okDocument w).text := rfl
    rw [hbytes, hlimit]
    omega
  have hframework : oneMegabyte.body (okUpload w).contentType (okUpload w).bytes =
      some (.json ((okDocument w).value doubles)) := by
    simp only [Framework.body, if_neg hsmall]
    exact hbody
  rw [HttpUpload.request, hframework]
  rfl

/-- The upload is answered `ok`. -/
theorem okUpload_ok (w : Spaces) :
    (((okUpload w).withBytes (some okBytes)).run StorageEnv.disk calmPartner).2 = .ok .ok := by
  have hplain : (((okUpload .empty).withBytes (some okBytes)).run StorageEnv.disk calmPartner).2 =
      .ok .ok := by decide
  exact hplain

theorem okUpload_stored (w : Spaces) :
    written (((okUpload w).withBytes (some okBytes)).run StorageEnv.disk calmPartner).1 =
      [okBytes] := by
  obtain ⟨-, b, hb, hwritten, -⟩ := answered_ok (okUpload_ok w)
  rw [hwritten, ← Option.some.inj hb]

/-- Without white space the body is kept. -/
theorem compact_body_kept : (okUpload .empty).Kept
    (((okUpload .empty).withBytes (some okBytes)).run StorageEnv.disk calmPartner).1 := by
  have hrequest := okUpload_request .empty (by decide)
  refine (upload_kept_iff (okUpload .empty) StorageEnv.disk oneMegabyte _ calmPartner hrequest
    (okUpload_ok .empty)).mpr fun _ => ⟨okDocument .empty, ?_, ?_, rfl⟩
  · have hkey : KeptItems [.plain 'o' (by decide), .plain 'k' (by decide)] := by
      simp [KeptItems, Item.Kept, Item.isHalf]
    exact ⟨List.pairwise_singleton _ _, ⟨rfl, hkey, rfl⟩, rfl, trivial, rfl⟩
  · intro items hitems
    cases hitems

/-- With a space behind the brace another body is stored, one byte shorter than the one sent. -/
theorem spaced_body_changed :
    (okUpload oneSpace).bytes = encode "\x7b \"ok\":true\x7d".toList ∧
      (okUpload oneSpace).request StorageEnv.disk oneMegabyte =
        some ((okUpload oneSpace).withBytes (some okBytes)) ∧
      (((okUpload oneSpace).withBytes (some okBytes)).run StorageEnv.disk calmPartner).2 =
        .ok .ok ∧
      ¬ (okUpload oneSpace).Kept
        (((okUpload oneSpace).withBytes (some okBytes)).run StorageEnv.disk calmPartner).1 := by
  refine ⟨by decide, okUpload_request oneSpace (by decide), okUpload_ok oneSpace, ?_⟩
  rintro ⟨hwritten, -⟩
  rw [okUpload_stored] at hwritten
  have hne : okBytes ≠ (okUpload oneSpace).bytes := by decide
  exact hne (List.cons.inj hwritten).1

end OpenUnion.Storage
