import HttpCodec.Chunk.Decoder
import HttpCodec.Connection
import HttpCodec.Log
import HttpCodec.Main
import HttpCodec.Proofs.Chunk
import HttpCodec.Proofs.Parser.Body
import HttpCodec.Proofs.Parser.Supply
import HttpCodec.Proofs.Parser.Split
import HttpCodec.Proofs.Event
import HttpCodec.Proofs.Framing
import HttpCodec.Proofs.TransferCoding
import HttpCodec.Proofs.Parser.Twin
import HttpCodec.Proofs.Parser.Streaming
import HttpCodec.Proofs.Field.Name
import HttpCodec.Proofs.Field
import HttpCodec.Proofs.Field.Cache
import HttpCodec.Proofs.Field.Grammar
import HttpCodec.Proofs.Fields
import HttpCodec.Proofs.Fields.Session
import HttpCodec.Proofs.StartLine
import HttpCodec.Proofs.Message.Made
import HttpCodec.Proofs.Chunk.Decoder
import HttpCodec.Proofs.Chunk.RoundTrip
import HttpCodec.Proofs.Chunk.Written
import HttpCodec.Proofs.Chunk.Failure
import HttpCodec.Proofs.Chunk.Split
import HttpCodec.Proofs.Message.Wire
import HttpCodec.Proofs.Parser.Reads
import HttpCodec.Proofs.Parser.Delimited
import HttpCodec.Proofs.Parser.Input
import HttpCodec.Proofs.RoundTrip.Built
import HttpCodec.Proofs.RoundTrip.Streamed
import HttpCodec.Proofs.Parser.Stop
import HttpCodec.Proofs.Parser.Invariant
import HttpCodec.Proofs.Parser.Count
import HttpCodec.Proofs.Parser.Decoder
import HttpCodec.Proofs.Parser.Boundary
import HttpCodec.Proofs.StartLine.Grammar
import HttpCodec.Proofs.Parser.Segment
import HttpCodec.Proofs.Parser.Transcript
import HttpCodec.Proofs.Parser.Report
import HttpCodec.Proofs.Framing.Rule
import HttpCodec.Proofs.Parser.Head
import HttpCodec.Proofs.Parser.Framing
import HttpCodec.Proofs.RoundTrip.Framed
import HttpCodec.Proofs.RoundTrip.Parsed
import HttpCodec.Proofs.Connection
import HttpCodec.Proofs.Parser.Buffer
import HttpCodec.Proofs.Parser.Limits
import HttpCodec.Proofs.Parser.Truncation
import HttpCodec.Proofs.Message.Building
import HttpCodec.Proofs.Message.Change
import HttpCodec.Proofs.Message.Length
import HttpCodec.Proofs.RoundTrip.Undeclared
import HttpCodec.Proofs.Framing.Coding
import HttpCodec.Proofs.RoundTrip.Interrupted
import HttpCodec.Proofs.Chunk.Grammar
import HttpCodec.Proofs.Parser.Lines
import HttpCodec.Proofs.RoundTrip.Query
import HttpCodec.Proofs.Line.Offset
import HttpCodec.Proofs.Parser.Cursor
import HttpCodec.Proofs.Parser.Cursor.Calls
import HttpCodec.Proofs.Parser.Cursor.Progress
import HttpCodec.Proofs.Parser.Coherent
import HttpCodec.Proofs.Parser.Cursor.Coherent
import HttpCodec.Proofs.Wording
import HttpCodec.Proofs.CommandLine
