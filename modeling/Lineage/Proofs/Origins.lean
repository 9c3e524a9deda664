import Lineage.Proofs.Authorization

/-! # What a request from a foreign origin learns and changes

A server with a list of origins turns away a request whose origin is not on the list, after it
has looked at the key and before anything looks at the database. The origin is compared as
text. A header that is no visible text counts as none, so that a request whose origin has a
character beyond ASCII needs the key only. -/

namespace Lineage.Http.Server
variable {s : Server} {r : Request} {refused : Response} {origin : String}

/-- The first origin header of the request names none of the origins that the server allows. -/
def ForeignOrigin (s : Server) (r : Request) (origin : String) : Prop :=
  r.header? "origin" = some origin ∧ origin ∉ s.config.http.allowedOrigins

/-- A request that is refused is answered without a look at the database, by the router or by
what handles its route. -/
theorem blind_respond (h : s.refusal? r = some refused) : Blind (s.respond r) := by
  rcases s.respond_cases r with ⟨response, hrespond⟩ | ⟨route, f, -, -, hrespond⟩
  · rw [hrespond]
    exact blind_pure response
  · rw [hrespond]
    exact (blind_handle h route).map f

theorem originRefusal?_of_visible (hlist : s.config.http.allowedOrigins ≠ [])
    (hforeign : s.ForeignOrigin r origin) (hvisible : isVisible origin = true) :
    originRefusal? s.config.http.allowedOrigins r = some (refusal 403 "Origin not allowed"
      ("Origin '" ++ origin ++ "' is not in the allowed origins list")) := by
  have hseen : r.visible? "origin" = some origin := by
    unfold Request.visible?
    rw [hforeign.1, Option.filter_some, if_pos hvisible]
  unfold originRefusal?
  rw [if_neg (by simpa using hlist), hseen]
  dsimp only
  rw [if_neg (by simpa using hforeign.2)]

theorem originRefusal?_of_not_visible (hforeign : s.ForeignOrigin r origin)
    (hvisible : ¬ isVisible origin = true) :
    originRefusal? s.config.http.allowedOrigins r = none := by
  have hseen : r.visible? "origin" = none := by
    unfold Request.visible?
    rw [hforeign.1, Option.filter_some, if_neg hvisible]
  unfold originRefusal?
  rw [hseen, ite_self]

/-- A request from a foreign origin is refused, unless it has the key and the text of its
origin cannot be seen. -/
theorem refused_iff (hlocked : s.config.http.authless = false)
    (hlist : s.config.http.allowedOrigins ≠ []) (hforeign : s.ForeignOrigin r origin) :
    (∃ refusal, s.refusal? r = some refusal) ↔ isVisible origin = true ∨ ¬ s.HasKey r := by
  by_cases hkey : s.HasKey r
  · have horigin : s.refusal? r = originRefusal? s.config.http.allowedOrigins r := by
      unfold refusal?
      rw [hlocked, keyRefusal_eq_none_iff.2 hkey]
      rfl
    rw [horigin]
    by_cases hvisible : isVisible origin = true
    · rw [originRefusal?_of_visible hlist hforeign hvisible]
      simp [hvisible]
    · rw [originRefusal?_of_not_visible hforeign hvisible]
      simp [hvisible, hkey]
  · exact iff_of_true (exists_refusal hlocked hkey) (Or.inr hkey)

/-- A server that asks for a key and has a list of origins answers a request from a foreign
origin the same whatever is stored and changes nothing on it, if the origin is visible text or
the request lacks the key. -/
theorem foreign_origin_learns_nothing (hlocked : s.config.http.authless = false)
    (hlist : s.config.http.allowedOrigins ≠ []) (hforeign : s.ForeignOrigin r origin)
    (hcaught : isVisible origin = true ∨ ¬ s.HasKey r) :
    ∃ response, ∀ db, (s.respond r).run db = (response, db) := by
  obtain ⟨refusal, hrefusal⟩ := (refused_iff hlocked hlist hforeign).2 hcaught
  exact blind_respond hrefusal

def guarded : Server :=
  { keyed with config.http.allowedOrigins := ["http://localhost:3000"] }

def reindexFrom (origin : String) : Request :=
  { reindexWith "sesame" with
    headers := [("Authorization", "Bearer sesame"), ("Origin", origin)] }

/-- With the key, a request from another host is answered blindly and one from the allowed
origin is queued. -/
theorem origin_decides :
    (guarded.config.http.authless = false ∧ guarded.config.http.allowedOrigins ≠ [] ∧
      guarded.ForeignOrigin (reindexFrom "http://example.org") "http://example.org" ∧
      guarded.HasKey (reindexFrom "http://example.org") ∧
      ∃ response, ∀ db,
        (guarded.respond (reindexFrom "http://example.org")).run db = (response, db)) ∧
    ((guarded.respond (reindexFrom "http://localhost:3000")).run queueOnly).2 ≠ queueOnly := by
  have hlist : guarded.config.http.allowedOrigins ≠ [] := List.cons_ne_nil _ _
  have hforeign : guarded.ForeignOrigin (reindexFrom "http://example.org") "http://example.org" :=
    ⟨by decide +kernel, by decide +kernel⟩
  have hkey : guarded.HasKey (reindexFrom "http://example.org") :=
    ⟨by decide +kernel, by decide +kernel⟩
  exact ⟨⟨rfl, hlist, hforeign, hkey,
    foreign_origin_learns_nothing rfl hlist hforeign (Or.inl (by decide +kernel))⟩,
    by decide +kernel⟩

/-- A request with the key is let in from a host whose name is not ASCII, though no such origin
is on the list. -/
theorem unseen_origin_is_let_in :
    ¬ ∀ (s : Server) (r : Request) (origin : String), s.config.http.authless = false →
        s.config.http.allowedOrigins ≠ [] → s.ForeignOrigin r origin →
        ∃ response, ∀ db, (s.respond r).run db = (response, db) := by
  intro h
  obtain ⟨response, hblind⟩ := h guarded (reindexFrom "http://é") "http://é" rfl
    (List.cons_ne_nil _ _) ⟨by decide +kernel, by decide +kernel⟩
  have hqueued : ((guarded.respond (reindexFrom "http://é")).run queueOnly).2 ≠ queueOnly := by
    decide +kernel
  exact hqueued (congrArg Prod.snd (hblind queueOnly))

end Lineage.Http.Server
