import Polliwog.Session
import Polliwog.OneShot.Swelling
import Polliwog.OneShot.Completeness
import Polliwog.OneShot.RoundTrip
import Polliwog.OneShot.Truncation
import Polliwog.OneShot.Bound
import Polliwog.Dispatch
import Polliwog.Streaming.Finishing
import Polliwog.Streaming.Compressing
import Polliwog.Streaming.Completion
import Polliwog.Streaming.Decompressing
import Polliwog.Streaming.RoundTrip
import Polliwog.Streaming.Lifetime
import Polliwog.Streaming.Chunking
import Polliwog.Determinism
import Polliwog.Codec.Grammar
import Polliwog.Codec.Buffer
import Polliwog.Reference.Stored
import Polliwog.Reference.Zlib
import Polliwog.Reference.Raw
import Polliwog.Reference.Zstd
import Polliwog.Reference.Build
import Polliwog.Codec.Drain
import Polliwog.Streaming.Draining
import Polliwog.Streaming.Accounting
import Polliwog.OneShot.Frame
import Polliwog.OneShot.Shortage
import Polliwog.OneShot.Trailing
import Polliwog.Streaming.Feeding
import Polliwog.Streaming.Blame
import Polliwog.Streaming.Position
import Polliwog.Codec.Loop
import Polliwog.Streaming.Progress
import Polliwog.Codec.Ledger
import Polliwog.Ownership
import Polliwog.Codec.Pool
import Polliwog.Objects
import Polliwog.Codec.Pipe
import Polliwog.Streaming.Pipe
import Polliwog.Agreement
import Polliwog.Streaming.Chunked
import Polliwog.Streaming.Damage
import Polliwog.Streaming.Reuse
import Polliwog.Streaming.Settling
import Polliwog.OneShot.Truth
import Polliwog.Streaming.OneBuffer
import Polliwog.Program
import Polliwog.Width
import Polliwog.Codec.Ahead
import Polliwog.Reference.Literal
