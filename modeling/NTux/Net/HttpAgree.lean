import NTux.Lib.Fields
import NTux.Net.Http

/-!
# GET and POST

`INT80_NET_HTTP_POST` takes the length that `network_tcp_send` returns for an error, so it
fails as soon as it has sent the header of its request, and never sends the body.  A
redirection always begins with a colon (`headerLine`), so `INT80_NET_HTTP_GET` fails after
one.  `http_agree_iff` says where the two handlers return the same all the same.
-/

namespace NTux.Net

variable {server : Nat → Exchange} {a : HttpArgs}

/-! ## Requests -/

theorem foldl_fill (limit : Nat) (parts : List CString) {req : CString} (le : req.length ≤ limit) :
    parts.foldl (fun req s => req ++ s.take (limit - req.length)) req =
      (req ++ parts.flatten).take limit := by
  induction parts generalizing req with
  | nil => rw [List.flatten_nil, List.append_nil, List.take_of_length_le le]; rfl
  | cons s parts ih =>
      have fits : (req ++ s.take (limit - req.length)).length ≤ limit := by
        rw [List.length_append, List.length_take]
        omega
      rw [List.foldl_cons, ih fits, List.flatten_cons, ← List.append_assoc]
      have front : req ++ s.take (limit - req.length) = (req ++ s).take limit := by
        rw [List.take_append, List.take_of_length_le le]
      rw [front, Lib.Fields.take_append_take]

/-- A request is what fits of its parts. -/
theorem fillRequest_eq (limit : Nat) (parts : List CString) :
    fillRequest limit parts = parts.flatten.take limit := by
  unfold fillRequest
  rw [foldl_fill limit parts (Nat.zero_le _)]
  rfl

theorem getParts_length (host path : CString) :
    (getParts host path).flatten.length = host.length + path.length + 124 := by
  have first : (ascii "GET ").length = 4 := by decide
  have second : (ascii " HTTP/1.1\r\nHost: ").length = 17 := by decide
  have third : (ascii "\r\nUser-Agent: NTux-Browser/1.0\r\nAccept: text/html,*/*;q=0.8\r\n" ++
      ascii "Accept-Language: en\r\nConnection: close\r\n\r\n").length = 103 := by decide
  unfold getParts
  simp only [List.flatten_cons, List.flatten_nil, List.length_append, List.append_nil] at third ⊢
  omega

theorem postParts_length (host path : CString) :
    (postParts host path []).flatten.length ≤ host.length + path.length + 224 := by
  have first : (ascii "POST ").length = 5 := by decide
  have second : (ascii " HTTP/1.1\r\nHost: ").length = 17 := by decide
  have third : (ascii "\r\nUser-Agent: NTux-Browser/1.0\r\nAccept: text/html,*/*;q=0.8\r\n" ++
      ascii "Accept-Language: en\r\nContent-Type: application/x-www-form-urlencoded\r\n" ++
      ascii "Content-Length: ").length ≤ 178 := by decide +kernel
  have fourth : (decimal 0).length = 1 := by decide
  have fifth : (ascii "\r\nConnection: close\r\n\r\n").length = 23 := by decide
  unfold postParts
  simp only [List.flatten_cons, List.flatten_nil, List.length_append, List.append_nil,
    List.length_nil] at third ⊢
  omega

theorem splitUrl_length (p : CString) :
    (splitUrl p).1.length ≤ 127 ∧ (splitUrl p).2.length ≤ 255 := by
  unfold splitUrl
  split
  · exact ⟨List.length_take_le _ _, List.length_take_le _ _⟩
  · exact ⟨List.length_take_le _ _, by show 1 ≤ 255; decide⟩

/-- The request of GET is complete exactly when host and path leave room for the rest. -/
theorem get_complete_iff (host path : CString) :
    fillRequest 500 (getParts host path) = (getParts host path).flatten ↔
      host.length + path.length ≤ 376 := by
  have length := getParts_length host path
  rw [fillRequest_eq]
  constructor
  · intro eq
    have shorter := congrArg List.length eq
    rw [List.length_take] at shorter
    omega
  · exact fun le => List.take_of_length_le (by omega)

/-- What POST has sent of its request is complete exactly when there is no body. -/
theorem post_complete_iff (p body : CString) :
    fillRequest 1000 (postParts (splitUrl p).1 (splitUrl p).2 body) =
        (postParts (splitUrl p).1 (splitUrl p).2 body).flatten ++ body ↔ body = [] := by
  rw [fillRequest_eq]
  constructor
  · intro eq
    have length := congrArg List.length eq
    rw [List.length_take, List.length_append] at length
    exact List.length_eq_zero_iff.1 (by omega)
  · rintro rfl
    obtain ⟨host, path⟩ := splitUrl_length p
    have length := postParts_length (splitUrl p).1 (splitUrl p).2
    rw [List.append_nil, List.take_of_length_le (by omega)]

theorem post_sends (host path body : CString) :
    networkTcpSend (fillRequest 1000 (postParts host path body)) ≠ 0 := by
  have first : (ascii "POST ").length = 5 := by decide
  have length : 5 ≤ (postParts host path body).flatten.length := by
    unfold postParts
    rw [List.flatten_cons, List.length_append]
    omega
  unfold networkTcpSend
  rw [fillRequest_eq, List.length_take]
  omega

/-! ## Redirections -/

theorem headerLine_location {h : Header} {line : List UInt8}
    (start : ∀ l ∈ h.location, l.head? = some colon) :
    ∀ l ∈ (headerLine h line).location, l.head? = some colon := by
  unfold headerLine
  dsimp only
  split
  next c rest _ =>
    split
    · split
      · exact start
      · split
        · intro l mem
          rw [← Option.some.inj mem, List.takeWhile_cons_of_pos (by decide)]
          rfl
        · split <;> exact start
    · exact start
  · exact start

/-- Where a response sends the handler begins with a colon. -/
theorem redirect_colon {buf location : List UInt8} {r : Interpreted}
    (eq : interpret buf = some r) (found : r.redirect = some location) :
    location.head? = some colon := by
  obtain ⟨⟨head, body⟩, -, rfl⟩ := Option.map_eq_some_iff.1 eq
  have all : ∀ (lines : List (List UInt8)) (h : Header),
      (∀ l ∈ h.location, l.head? = some colon) →
      ∀ l ∈ (lines.foldl headerLine h).location, l.head? = some colon := by
    intro lines
    induction lines with
    | nil => exact fun h start => start
    | cons line lines ih => exact fun h start => ih _ (headerLine_location start)
  rw [Interpreted.redirect, Option.ite_none_right_eq_some] at found
  exact all _ _ (fun l (mem : none = some l) => nomatch mem) location found.2

theorem urlKind_colon (rest : CString) : urlKind (colon :: rest) = .other := by
  unfold urlKind
  rw [if_neg, if_neg]
  · intro eq
    cases eq
  · intro eq
    cases eq

theorem nextUrl_other {host location : CString} (start : location.head? = some colon) :
    urlKind (nextUrl host location) = .other := by
  cases location with
  | nil => cases start
  | cons c rest =>
      obtain rfl := Option.some.inj start
      unfold nextUrl
      rw [List.takeWhile_cons_of_pos (by decide)]
      dsimp only
      rw [List.head?_cons, if_neg (by decide)]
      exact urlKind_colon _

theorem getLoop_other {cap k : Nat} {url : CString} {sent : List Sent}
    (other : urlKind url = .other) :
    getLoop server cap k url sent = some (message getFailed cap true sent) := by
  cases k with
  | zero => rfl
  | succ k =>
      unfold getLoop
      rw [other]

/-! ## What GET does -/

/-- The host and the path of the request that is sent, if one is. -/
def requested (server : Nat → Exchange) (url : CString) : Option (CString × CString) :=
  match urlKind url with
  | .http p =>
      if (server 0).resolves (splitUrl p).1 = false ∨ (server 0).connects = false then none
      else some (splitUrl p)
  | _ => none

/-- The server answers with a header, an empty line, and a status 2xx. -/
def Answers (server : Nat → Exchange) : Prop :=
  ∃ r, interpret (server 0).response = some r ∧ 200 ≤ r.status ∧ r.status < 300

/-- What a handler returns where it sends no request. -/
def unsent (failed : CString) (a : HttpArgs) : Reply :=
  match urlKind a.url with
  | .https => message httpsText a.cap false []
  | _ => message failed a.cap true []

/-- No request is sent where the URL is not one of plain HTTP, or the host is not reached. -/
theorem requested_none (none' : requested server a.url = none) :
    urlKind a.url = .https ∨ urlKind a.url = .other ∨ ∃ p, urlKind a.url = .http p ∧
      ((server 0).resolves (splitUrl p).1 = false ∨ (server 0).connects = false) := by
  unfold requested at none'
  cases kind : urlKind a.url with
  | https => exact .inl rfl
  | other => exact .inr (.inl rfl)
  | http p =>
      rw [kind] at none'
      dsimp only at none'
      split at none'
      next fails => exact .inr (.inr ⟨p, rfl, fails⟩)
      next => cases none'

theorem httpGet_unsent (none' : requested server a.url = none) :
    httpGet server a = some (unsent getFailed a) := by
  unfold httpGet getLoop unsent
  rcases requested_none none' with kind | kind | ⟨p, kind, fails⟩
  · rw [kind]
  · rw [kind]
  · rw [kind]
    exact if_pos fails

theorem httpPost_unsent (none' : requested server a.url = none) :
    httpPost server a = some (unsent postFailed a) := by
  unfold httpPost postLoop unsent
  rcases requested_none none' with kind | kind | ⟨p, kind, fails⟩
  · rw [kind]
  · rw [kind]
  · rw [kind]
    exact if_pos fails

theorem requested_some {host path : CString}
    (some' : requested server a.url = some (host, path)) :
    ∃ p, urlKind a.url = .http p ∧ splitUrl p = (host, path) ∧
      ¬ ((server 0).resolves host = false ∨ (server 0).connects = false) := by
  unfold requested at some'
  split at some'
  next p kind =>
    split at some'
    · cases some'
    next works =>
      have eq := Option.some.inj some'
      rw [eq] at works
      exact ⟨p, kind, eq, works⟩
  · cases some'

/-- POST fails once it has sent its header. -/
theorem httpPost_sent {host path : CString} (some' : requested server a.url = some (host, path)) :
    httpPost server a = some (message postFailed a.cap true
      [⟨host, path, fillRequest 1000 (postParts host path a.body)⟩]) := by
  obtain ⟨p, kind, split, works⟩ := requested_some some'
  unfold httpPost postLoop
  rw [kind]
  dsimp only
  rw [split]
  dsimp only
  -- the number of bytes sent is taken for an error
  rw [if_neg works, if_pos (post_sends host path a.body)]
  rfl

/-- GET delivers the answer to its first request, or fails. -/
theorem httpGet_sent {host path : CString} (some' : requested server a.url = some (host, path)) :
    (¬ Answers server ∧ httpGet server a = some (message getFailed a.cap true
      [⟨host, path, fillRequest 500 (getParts host path)⟩])) ∨
    Answers server ∧ ∀ g ∈ httpGet server a, g.failed = false := by
  obtain ⟨p, kind, split, works⟩ := requested_some some'
  unfold httpGet getLoop Answers
  rw [kind]
  dsimp only
  rw [split]
  dsimp only
  rw [if_neg works]
  cases answer : interpret (server 0).response with
  | none => exact .inl ⟨fun ⟨r, eq, _⟩ => (nomatch eq), rfl⟩
  | some r =>
      dsimp only
      cases redirected : r.redirect with
      | some location =>
          dsimp only
          rw [getLoop_other (nextUrl_other (redirect_colon answer redirected))]
          refine .inl ⟨?_, rfl⟩
          rintro ⟨r', eq, lower, upper⟩
          obtain rfl := Option.some.inj eq
          unfold Interpreted.redirect at redirected
          rw [if_neg (by omega)] at redirected
          cases redirected
      | none =>
          dsimp only
          split
          next ok =>
            refine .inr ⟨⟨r, rfl, ok⟩, fun g mem => ?_⟩
            obtain ⟨body, -, rfl⟩ := Option.map_eq_some_iff.1 mem
            rfl
          next bad =>
            refine .inl ⟨?_, rfl⟩
            rintro ⟨r', eq, ok⟩
            obtain rfl := Option.some.inj eq
            exact bad ok

/-! ## Agreement -/

/-- The two handlers return the same and store the same bytes. -/
def SameBytes (post get : Option Reply) : Prop :=
  post.map (fun r => (r.rax, r.out)) = get.map fun r => (r.rax, r.out)

/-- The same, but for the texts that report a failure. -/
def SameButText (post get : Option Reply) : Prop :=
  SameBytes post get ∨ ∃ p ∈ post, ∃ g ∈ get, p.failed = true ∧ g.failed = true

/-- The replies are the same, POST fails only where GET does, and what either has sent is
its whole request. -/
structure HttpAgrees (same : Option Reply → Option Reply → Prop) (server : Nat → Exchange)
    (a : HttpArgs) : Prop where
  same : same (httpPost server a) (httpGet server a)
  failure : ∀ p ∈ httpPost server a, p.failed = true → ∃ g ∈ httpGet server a, g.failed = true
  getSent : ∀ g ∈ httpGet server a, ∀ s ∈ g.sent, s.data = (getParts s.host s.path).flatten
  postSent : ∀ p ∈ httpPost server a, ∀ s ∈ p.sent,
    s.data = (postParts s.host s.path a.body).flatten ++ a.body

/-- If a request is sent, it has no body and leaves room for the rest of the header, and the
server does not answer with a status 2xx. -/
def Quiet (server : Nat → Exchange) (a : HttpArgs) : Prop :=
  ∀ r ∈ requested server a.url,
    ¬ Answers server ∧ r.1.length + r.2.length ≤ 376 ∧ a.body = []

/-- The texts of the two failures have their first five bytes in common. -/
theorem failedText_take_iff (cap : Nat) : postFailed.take cap = getFailed.take cap ↔ cap ≤ 5 := by
  constructor
  · intro eq
    by_contra more
    have six := congrArg (List.take 6) eq
    rw [List.take_take, List.take_take, Nat.min_eq_left (by omega)] at six
    exact absurd six (by decide)
  · intro le
    have five : postFailed.take 5 = getFailed.take 5 := by decide
    have cut := congrArg (List.take cap) five
    rwa [List.take_take, List.take_take, Nat.min_eq_left le] at cut

theorem sameBytes_message_iff (cap : Nat) (s t : List Sent) :
    SameBytes (some (message postFailed cap true s)) (some (message getFailed cap true t)) ↔
      cap ≤ 5 := by
  rw [← failedText_take_iff]
  unfold SameBytes message
  simp only [Option.map_some, Option.some.injEq, Prod.mk.injEq]
  exact ⟨fun both => both.2, fun eq => ⟨by rw [eq], eq⟩⟩

/-- Where both handlers fail, what they return differs in the text. -/
theorem sameButText_message (cap : Nat) (s t : List Sent) :
    SameButText (some (message postFailed cap true s)) (some (message getFailed cap true t)) :=
  .inr ⟨_, rfl, _, rfl, rfl, rfl⟩

/-- Where no request is sent, the handlers agree but for the text of a failure. -/
theorem httpAgrees_unsent {same : Option Reply → Option Reply → Prop}
    (none' : requested server a.url = none) :
    HttpAgrees same server a ↔ same (some (unsent postFailed a)) (some (unsent getFailed a)) := by
  have get := httpGet_unsent none'
  have post := httpPost_unsent none'
  have sent : ∀ text, (unsent text a).sent = [] := fun text => by
    unfold unsent
    split <;> rfl
  have failed : ∀ text, (unsent text a).failed = (unsent getFailed a).failed := fun text => by
    unfold unsent
    split <;> rfl
  constructor
  · intro agrees
    rw [← get, ← post]
    exact agrees.same
  · intro eq
    refine ⟨by rw [get, post]; exact eq, fun p mem fails => ?_, fun g mem s memS => ?_,
      fun p mem s memS => ?_⟩
    · rw [post] at mem
      obtain rfl := Option.some.inj mem
      exact ⟨_, get, (failed _).symm.trans fails⟩
    · rw [get] at mem
      obtain rfl := Option.some.inj mem
      rw [sent] at memS
      cases memS
    · rw [post] at mem
      obtain rfl := Option.some.inj mem
      rw [sent] at memS
      cases memS

/-- Where a request is sent, the handlers agree exactly when both fail with the same reply
and their requests are complete. -/
theorem httpAgrees_sent {same : Option Reply → Option Reply → Prop} {host path : CString}
    (some' : requested server a.url = some (host, path)) :
    HttpAgrees same server a ↔
      (¬ Answers server ∧ host.length + path.length ≤ 376 ∧ a.body = []) ∧
        ∀ s t, s = [⟨host, path, fillRequest 1000 (postParts host path a.body)⟩] →
          t = [⟨host, path, fillRequest 500 (getParts host path)⟩] →
          same (some (message postFailed a.cap true s)) (some (message getFailed a.cap true t)) := by
  have post := httpPost_sent some'
  obtain ⟨p, -, split, -⟩ := requested_some some'
  have complete := post_complete_iff p a.body
  rw [split] at complete
  rcases httpGet_sent some' with ⟨silent, get⟩ | ⟨answers, delivers⟩
  · constructor
    · intro agrees
      refine ⟨⟨silent, ?_, ?_⟩, ?_⟩
      · exact (get_complete_iff host path).1 (agrees.getSent _ get _ (List.mem_singleton_self _))
      · exact complete.1 (agrees.postSent _ post _ (List.mem_singleton_self _))
      · rintro s t rfl rfl
        rw [← get, ← post]
        exact agrees.same
    · rintro ⟨⟨-, room, noBody⟩, same⟩
      refine ⟨by rw [get, post]; exact same _ _ rfl rfl, fun p' mem _ => ⟨_, get, rfl⟩,
        fun g mem s memS => ?_, fun p' mem s memS => ?_⟩
      · rw [get] at mem
        obtain rfl := Option.some.inj mem
        obtain rfl := List.mem_singleton.1 memS
        exact (get_complete_iff host path).2 room
      · rw [post] at mem
        obtain rfl := Option.some.inj mem
        obtain rfl := List.mem_singleton.1 memS
        exact complete.2 noBody
  · constructor
    · intro agrees
      obtain ⟨g, mem, fails⟩ := agrees.failure _ post rfl
      exact absurd ((delivers g mem).symm.trans fails) (by decide)
    · exact fun ⟨⟨silent, _⟩, _⟩ => absurd answers silent

theorem unsent_https {text : CString} (kind : urlKind a.url = .https) :
    unsent text a = message httpsText a.cap false [] := by
  unfold unsent
  rw [kind]

theorem unsent_other {text : CString} (kind : urlKind a.url ≠ .https) :
    unsent text a = message text a.cap true [] := by
  unfold unsent
  split
  next eq => exact absurd eq kind
  next => rfl

/-- **GET and POST agree for `https` URLs, and elsewhere exactly when GET fails too, no body
is left unsent, GET's request fits, and the caller has no room for the texts to differ; the
last condition falls away if the texts are left aside.** -/
theorem http_agree_iff (server : Nat → Exchange) (a : HttpArgs) :
    (HttpAgrees SameBytes server a ↔ urlKind a.url = .https ∨ (a.cap ≤ 5 ∧ Quiet server a)) ∧
      (HttpAgrees SameButText server a ↔ Quiet server a) := by
  unfold Quiet
  cases sent : requested server a.url with
  | none =>
      -- no request is sent, and only the two texts of a failure can differ
      have quiet : ∀ r ∈ (none : Option (CString × CString)), ¬ Answers server ∧
          r.1.length + r.2.length ≤ 376 ∧ a.body = [] := fun r (mem : none = some r) => nomatch mem
      rw [httpAgrees_unsent sent, httpAgrees_unsent sent]
      by_cases kind : urlKind a.url = .https
      · rw [unsent_https kind, unsent_https kind]
        exact ⟨iff_of_true rfl (.inl kind), iff_of_true (.inl rfl) quiet⟩
      · rw [unsent_other kind, unsent_other kind, sameBytes_message_iff]
        exact ⟨⟨fun le => .inr ⟨le, quiet⟩, fun or => (or.resolve_left kind).1⟩,
          iff_of_true (sameButText_message _ _ _) quiet⟩
  | some r =>
      obtain ⟨host, path⟩ := r
      have plain : urlKind a.url ≠ .https := by
        obtain ⟨p, kind, -⟩ := requested_some sent
        rw [kind]
        exact fun eq => by cases eq
      rw [httpAgrees_sent sent, httpAgrees_sent sent]
      constructor
      · constructor
        · rintro ⟨quiet, same⟩
          refine .inr ⟨(sameBytes_message_iff a.cap _ _).1 (same _ _ rfl rfl), fun r mem => ?_⟩
          obtain rfl := Option.some.inj mem
          exact quiet
        · intro or
          obtain ⟨le, quiet⟩ := or.resolve_left plain
          exact ⟨quiet _ rfl, fun s t _ _ => (sameBytes_message_iff a.cap s t).2 le⟩
      · constructor
        · rintro ⟨quiet, -⟩ r mem
          obtain rfl := Option.some.inj mem
          exact quiet
        · exact fun quiet => ⟨quiet _ rfl, fun s t _ _ => sameButText_message a.cap s t⟩

/-- A server that answers `HTTP/1.1 200 OK` and two letters. -/
def hiServer : Nat → Exchange := fun _ => ⟨fun _ => true, true, [ascii "HTTP/1.1 200 OK\r\n\r\nhi"]⟩

/-- A URL of that server. -/
def hiArgs : HttpArgs := ⟨ascii "http://h/", 64, [], by decide, by decide, by decide, by decide⟩

/-- GET returns the two letters and POST the text of a failure. -/
theorem http_disagree : ¬ ∀ server a, HttpAgrees SameButText server a := by
  intro all
  have post : (httpPost hiServer hiArgs).map Reply.failed = some true := by decide +kernel
  have get : (httpGet hiServer hiArgs).map Reply.failed = some false := by decide +kernel
  obtain ⟨p, eq, fails⟩ := Option.map_eq_some_iff.1 post
  obtain ⟨g, mem, failsToo⟩ := (all hiServer hiArgs).failure p eq fails
  rw [show httpGet hiServer hiArgs = some g from mem, Option.map_some, failsToo] at get
  cases get

end NTux.Net
