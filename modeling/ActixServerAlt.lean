import ActixServerAlt.Bytes
import ActixServerAlt.Http
import ActixServerAlt.H1.Context
import ActixServerAlt.H1.Buf
import ActixServerAlt.H1.Error
import ActixServerAlt.H1.Transfer
import ActixServerAlt.H1.Head
import ActixServerAlt.H1.Length
import ActixServerAlt.Rfc7230
import ActixServerAlt.H1.Chunked
import ActixServerAlt.H1.Wire
import ActixServerAlt.H1.Framing
import ActixServerAlt.H1.Response
import ActixServerAlt.H1.Connection
import ActixServerAlt.H1.Failure
import ActixServerAlt.H1.Pipeline
import ActixServerAlt.Ws.Decode
import ActixServerAlt.Ws.Encode
import ActixServerAlt.Ws.Link
