import Facebooc.Database
import Facebooc.Escape
import Facebooc.LeftJoin
import Facebooc.Ranking

set_option autoImplicit false

namespace Facebooc

open CMemory Ranking LeftJoin

-- src/models/post.c
structure Post where
  id : Int
  createdAt : Int
  authorId : Int
  body : BasicString
deriving DecidableEq, Repr

def postOfRow (row : PostRow) : Post :=
  ⟨row.id, row.createdAt, row.author, newlineToBr (basicStringInit (some row.body))⟩

def postCreateMove (db : Database) (now authorId : Int) (body : BasicString) : Database :=
  { db with posts := db.posts ++ [⟨nextRowid (db.posts.map PostRow.id), now, authorId, (htmlEscapeTrans body).data⟩] }

def postGetById (db : Database) (id : Int) : Option Post :=
  if id = -1 then none else (db.posts.find? fun row => row.id = id).map postOfRow

-- ORDER BY createdAt DESC LIMIT 10 OFFSET page * 10: the rows SQLite may
-- return, and the ones it returns when it keeps ties in table order.
def LatestPage (rows : List PostRow) (page : Int) (posts : List Post) : Prop :=
  ∃ order, Ranked PostRow.createdAt rows order ∧ posts = ((order.drop (page * 10).toNat).take 10).map postOfRow

def latestPage (rows : List PostRow) (page : Int) : List Post :=
  (((rank PostRow.createdAt rows).drop (page * 10).toNat).take 10).map postOfRow

def postGetLatest (db : Database) (accountId page : Int) : Option (List Post) :=
  if accountId = -1 then none else some (latestPage (db.posts.filter fun row => row.author = accountId) page)

-- posts LEFT OUTER JOIN connections ON posts.author = connections.account2
-- WHERE connections.account1 = ? OR posts.author = ?
def graphOn (post : PostRow) (connection : ConnectionRow) : Bool := post.author = connection.account2

def graphWhere (accountId : Int) (post : PostRow) (connection : Option ConnectionRow) : Bool :=
  (connection.any fun row => row.account1 = accountId) || post.author = accountId

def graphRows (db : Database) (accountId : Int) : List PostRow :=
  select graphOn (graphWhere accountId) db.posts db.connections

def PostGetLatestGraph (db : Database) (accountId page : Int) (posts : Option (List Post)) : Prop :=
  if accountId = -1 then posts = none
  else ∃ list, posts = some list ∧ LatestPage (graphRows db accountId) page list

def postGetLatestGraph (db : Database) (accountId page : Int) : Option (List Post) :=
  if accountId = -1 then none else some (latestPage (graphRows db accountId) page)

theorem post_get_latest_graph_allowed (db : Database) (accountId page : Int) :
    PostGetLatestGraph db accountId page (postGetLatestGraph db accountId page) := by
  rw [PostGetLatestGraph, postGetLatestGraph]
  split
  · rfl
  · exact ⟨_, rfl, _, rank_ranked PostRow.createdAt _, rfl⟩

-- src/models/connection.c and src/models/like.c
def connectionCreate (db : Database) (now account1Id account2Id : Int) : Database :=
  { db with connections := db.connections ++ [⟨nextRowid (db.connections.map ConnectionRow.id), now, account1Id, account2Id⟩] }

def connectionGetByAccountIds (db : Database) (account1Id account2Id : Int) : Option ConnectionRow :=
  if account1Id = -1 ∨ account2Id = -1 then none
  else db.connections.find? fun row => row.account1 = account1Id ∧ row.account2 = account2Id

def likeCreate (db : Database) (now accountId authorId postId : Int) : Database :=
  { db with likes := db.likes ++ [⟨nextRowid (db.likes.map LikeRow.id), now, accountId, authorId, postId⟩] }

def likeDelete (db : Database) (accountId postId : Int) : Database :=
  { db with likes := db.likes.filter fun row => ¬ (row.account = accountId ∧ row.post = postId) }

def likeLiked (db : Database) (accountId postId : Int) : Bool :=
  db.likes.any fun row => row.account = accountId ∧ row.post = postId

end Facebooc
