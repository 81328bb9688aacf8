import Gallery.Gateway.Messages
import Gallery.Gateway.Requests

namespace Gallery

open Text

section Hops

end Hops

end Gallery
